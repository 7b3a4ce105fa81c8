import ChipEight.Machine.Bench
import ChipEight.Proofs.Encoding
import ChipEight.Proofs.Stores

/-!
Saved registers. `save` puts the registers up to and including one into memory where the index
register points, each at the distance of its number, and `restore` takes them from there. Neither
moves the index register, and the flag register is saved and restored like any other. So what was
saved can be restored as long as memory still has it and the index register points to it
(`Machine.restore_after_save`).
-/
namespace ChipEight

namespace Machine

theorem register_setRegisters (m : Machine) (values : List UInt8) (r : Register) :
    (m.setRegisters values).register r = values[r.val]?.getD (m.register r) := by
  simp [register, setRegisters]

theorem register_withPc (m : Machine) (pc : UInt16) (r : Register) :
    Machine.register { m with pc } r = m.register r := rfl

/-- The bytes that the registers up to and including one are saved as. -/
def dump (m : Machine) (last : Register) : List UInt8 :=
  ((List.finRange 16).take (last.val + 1)).map m.register

theorem length_dump (m : Machine) (last : Register) : (m.dump last).length = last.val + 1 := by
  rw [dump, List.length_map, List.length_take, List.length_finRange]
  omega

theorem getElem?_dump {m : Machine} {last r : Register} (h : r ≤ last) :
    (m.dump last)[r.val]? = some (m.register r) := by
  have hr : r.val < last.val + 1 := Nat.lt_succ_of_le h
  simp [dump, List.getElem?_take_of_lt hr]

section
variable {m : Machine} {last : Register} (hrange : m.index.toNat + last.val < Memory.size)
include hrange

/-! ## Saving -/

theorem execute_save :
    (Instruction.save last).execute m =
      .success { m with memory := m.memory.put m.index.toNat (m.dump last), pc := m.pc + 2 } := by
  have heffect : (Instruction.save last).effect m =
      .success (m.withMemory (m.memory.put m.index.toNat (m.dump last))) := by
    have hfits : m.index.toNat + (m.dump last).length ≤ Memory.size := by
      rw [length_dump]
      exact hrange
    rw [Instruction.effect, store, Memory.write_eq, take_registers]
    show Outcome.check m (if m.index.toNat + (m.dump last).length ≤ Memory.size then _ else _) _ = _
    rw [if_pos hfits]
    rfl
  exact Instruction.execute_of_success heffect

/-- Each register is saved at the distance of its number from where the index register points. -/
theorem byte_save {r : Register} (h : r ≤ last) :
    ((Instruction.save last).execute m).machine.memory.byte (m.index.toNat + r.val) =
      m.register r := by
  have hr : r.val ≤ last.val := h
  rw [execute_save hrange]
  show (m.memory.put m.index.toNat (m.dump last)).byte _ = _
  rw [Memory.byte_put, length_dump, if_pos (by omega), Nat.add_sub_cancel_left, getElem?_dump h]
  rfl

theorem byte_save_outside {a : Nat} (h : a < m.index.toNat ∨ m.index.toNat + last.val < a) :
    ((Instruction.save last).execute m).machine.memory.byte a = m.memory.byte a := by
  rw [execute_save hrange]
  show (m.memory.put m.index.toNat (m.dump last)).byte a = _
  rw [Memory.byte_put, length_dump, if_neg (by omega)]

/-! ## Restoring -/

theorem execute_restore :
    (Instruction.restore last).execute m =
      .success { m.setRegisters ((List.range (last.val + 1)).map fun k =>
        m.memory.byte (m.index.toNat + k)) with pc := m.pc + 2 } := by
  have heffect : (Instruction.restore last).effect m =
      .success (m.setRegisters ((List.range (last.val + 1)).map fun k =>
        m.memory.byte (m.index.toNat + k))) := by
    rw [Instruction.effect, Memory.read_eq, if_pos (by omega)]
    rfl
  exact Instruction.execute_of_success heffect

/-- Each register up to the last one takes the byte at the distance of its number. -/
theorem register_restore (r : Register) :
    ((Instruction.restore last).execute m).machine.register r =
      if r ≤ last then m.memory.byte (m.index.toNat + r.val) else m.register r := by
  rw [execute_restore hrange, Outcome.machine_success, register_withPc, register_setRegisters]
  by_cases hr : r ≤ last
  · have hin : r.val < last.val + 1 := Nat.lt_succ_of_le hr
    simp [hr, hin]
  · have hout : last.val + 1 ≤ r.val := Nat.lt_of_not_le hr
    rw [if_neg hr, List.getElem?_eq_none (by simpa using hout), Option.getD_none]

theorem fault_save : ((Instruction.save last).execute m).fault = none := by
  rw [execute_save hrange, Outcome.fault_success]

theorem fault_restore : ((Instruction.restore last).execute m).fault = none := by
  rw [execute_restore hrange, Outcome.fault_success]

end

theorem index_save (m : Machine) (last : Register) :
    ((Instruction.save last).execute m).machine.index = m.index := by
  show Part.index.Same m _
  exact Instruction.execute_same _ m (by simp [Instruction.touches]) (by decide)

theorem index_restore (m : Machine) (last : Register) :
    ((Instruction.restore last).execute m).machine.index = m.index := by
  show Part.index.Same m _
  exact Instruction.execute_same _ m (by simp [Instruction.touches]) (by decide)

theorem memory_restore (m : Machine) (last : Register) :
    ((Instruction.restore last).execute m).machine.memory = m.memory := by
  show Part.memory.Same m _
  exact Instruction.execute_same _ m (by simp [Instruction.touches]) (by decide)

/-! ## One after the other -/

section
variable {m now : Machine} {x y : Register} (hrange : m.index.toNat + x.val < Memory.size)
include hrange

/-- Where memory has what was saved, and the index register points to it, it can be restored. -/
theorem register_restore_of_saved (hy : y ≤ x) (hindex : now.index = m.index)
    (hkept : ∀ a, m.index.toNat ≤ a → a ≤ m.index.toNat + x.val →
      now.memory.byte a = ((Instruction.save x).execute m).machine.memory.byte a) (r : Register) :
    ((Instruction.restore y).execute now).machine.register r =
      if r ≤ y then m.register r else now.register r := by
  have hyx : y.val ≤ x.val := hy
  have hnow : now.index.toNat + y.val < Memory.size := by
    rw [hindex]
    omega
  rw [register_restore hnow]
  split
  · rename_i hr
    have hrx : r.val ≤ x.val := Nat.le_trans hr hyx
    rw [hindex, hkept _ (by omega) (by omega)]
    exact byte_save hrange hrx
  · rfl

/-- To save what was just restored is to write what memory has. -/
theorem memory_save_after_restore (hnow : now = ((Instruction.restore x).execute m).machine) :
    ((Instruction.save x).execute now).machine.memory = m.memory := by
  have hindex : now.index = m.index := by rw [hnow, index_restore]
  have hmemory : now.memory = m.memory := by rw [hnow, memory_restore]
  have hrange' : now.index.toNat + x.val < Memory.size := by
    rw [hindex]
    exact hrange
  refine Memory.ext_byte fun a => ?_
  by_cases hout : a < m.index.toNat ∨ m.index.toNat + x.val < a
  · rw [byte_save_outside hrange' (by rw [hindex]; exact hout), hmemory]
  · -- An address of the block belongs to the register whose number is its distance.
    obtain ⟨k, rfl⟩ : ∃ k, a = m.index.toNat + k := ⟨a - m.index.toNat, by omega⟩
    let r : Register := ⟨k, by omega⟩
    have hr : r ≤ x := show k ≤ x.val by omega
    have hsaved := byte_save hrange' hr
    rw [hindex] at hsaved
    rw [hsaved, hnow, register_restore hrange, if_pos hr]

end

/-- **Saved registers can be restored.** Saving the registers up to `x` succeeds where memory has
room for them, leaves the index register alone and writes nothing but their bytes. Whatever happens
then, as long as the bytes are still there and the index register points to them: restoring the
registers up to one of those succeeds and gives them back, leaves the registers behind it as they
are, and changes neither memory nor the index register. And to save what was just restored changes
nothing in memory. -/
theorem restore_after_save (m : Machine) (x : Register)
    (hrange : m.index.toNat + x.val < Memory.size) :
    let saved := m.execute (.ofByte 0xF x 0x55)
    let taken := m.execute (.ofByte 0xF x 0x65)
    let returned := taken.machine.execute (.ofByte 0xF x 0x55)
    (saved.fault = none ∧ saved.machine.index = m.index ∧
        ∀ a, a < m.index.toNat ∨ m.index.toNat + x.val < a →
          saved.machine.memory.byte a = m.memory.byte a) ∧
      (∀ (y : Register) (between : List BenchRequest),
        let now := saved.machine.afterBench between
        let restored := now.execute (.ofByte 0xF y 0x65)
        y ≤ x → now.index = m.index →
        (∀ a, m.index.toNat ≤ a → a ≤ m.index.toNat + x.val →
          now.memory.byte a = saved.machine.memory.byte a) →
            restored.fault = none ∧
              (∀ r ≤ y, restored.machine.register r = m.register r) ∧
              (∀ r, y < r → restored.machine.register r = now.register r) ∧
              restored.machine.index = now.index ∧ restored.machine.memory = now.memory) ∧
      taken.fault = none ∧ returned.fault = none ∧ returned.machine.memory = m.memory := by
  have hsave : ∀ n : Machine, n.execute (.ofByte 0xF x 0x55) = (Instruction.save x).execute n :=
    fun n => n.execute_opcode (.save x)
  have hrestore : ∀ (n : Machine) (y : Register),
      n.execute (.ofByte 0xF y 0x65) = (Instruction.restore y).execute n :=
    fun n y => n.execute_opcode (.restore y)
  simp only [hsave, hrestore]
  refine ⟨⟨fault_save hrange, index_save m x, fun a => byte_save_outside hrange⟩, ?_,
    fault_restore hrange, ?_, memory_save_after_restore hrange rfl⟩
  · intro y between
    generalize afterBench _ between = now
    intro hy hnow hkept
    have hyx : y.val ≤ x.val := hy
    have hroom : now.index.toNat + y.val < Memory.size := by
      rw [hnow]
      omega
    have hgiven := register_restore_of_saved hrange hy hnow hkept
    refine ⟨fault_restore hroom, fun r hr => ?_, fun r hr => ?_, index_restore now y,
      memory_restore now y⟩
    · rw [hgiven, if_pos hr]
    · rw [hgiven, if_neg (Fin.not_le.mpr hr)]
  · exact fault_save (by rw [index_restore]; exact hrange)

/-- All sixteen registers are saved into the last sixteen bytes of memory. A key, an addition and a
load then overwrite registers and other bytes, and two of the registers are restored. -/
theorem restore_after_save_at_end :
    let m : Machine :=
      { bare {} (.ofList []) with
        registers := .ofFn fun r => UInt8.ofNat (0x10 + r.val)
        index := 0xFF0 }
    let between := [BenchRequest.execute [⟨0x6000⟩, ⟨0x8F14⟩, ⟨0xF10A⟩] 1, .host (.press 7),
      .host (.load [0xF1, 0x65]), .host (.tick 3)]
    let now := (m.execute ⟨0xFF55⟩).machine.afterBench between
    let restored := now.execute ⟨0xF165⟩
    (now.register 0 = 0 ∧ now.register 1 = 7 ∧ now.register 15 = 0) ∧
      restored.fault = none ∧ restored.machine.register 0 = 0x10 ∧
      restored.machine.register 1 = 0x11 ∧ restored.machine.register 15 = 0 := by
  intro m between now restored
  have hchanged : now.register 0 = 0 ∧ now.register 1 = 7 ∧ now.register 15 = 0 := by
    decide +kernel
  have hmemory : now.memory = (m.execute ⟨0xFF55⟩).machine.memory.put 0x200 [0xF1, 0x65] := rfl
  obtain ⟨-, hrestores, -⟩ := restore_after_save m 15 (by decide)
  obtain ⟨hok, hgiven, hleft, -, -⟩ := hrestores 1 between (by decide) rfl fun a hfrom _ => by
    have hstart : m.index.toNat = 0xFF0 := rfl
    show now.memory.byte a = _
    rw [hmemory, Memory.byte_put, if_neg (by simp only [List.length_cons, List.length_nil]; omega)]
    rfl
  exact ⟨hchanged, hok, hgiven 0 (by decide), hgiven 1 (by decide),
    (hleft 15 (by decide)).trans hchanged.2.2⟩

end Machine
end ChipEight
