import ChipEight.Machine.Request
import ChipEight.Proofs.Atomicity

/-!
The bytes a cycle needs. `Machine.needs` lists their addresses in the order in which the cycle asks
for them: first the two of its opcode, then the block that the instruction reads or writes where the
index register points. A cycle fails for want of a byte just if memory lacks one of them, and names
the first (`Machine.fault_names_missing_byte`). There is one exception: a sprite without rows needs
no byte, but its empty block is refused too where it lies behind the end of memory.
-/
namespace ChipEight

namespace Memory

/-! ## Missing addresses -/

/-- The first of some addresses that memory does not have. -/
def missing? (addresses : List Nat) : Option Nat :=
  addresses.find? fun a => size ≤ a

theorem missing?_append (as bs : List Nat) :
    missing? (as ++ bs) = (missing? as).or (missing? bs) :=
  List.find?_append

/-- A block of bytes lacks the first address behind the end of memory, or its own first one. -/
theorem missing?_block {start length a : Nat} :
    missing? (List.range' start length) = some a ↔
      0 < length ∧ size < start + length ∧ a = max start size := by
  rw [missing?, List.find?_range'_eq_some, List.mem_range'_1, decide_eq_true_eq]
  constructor
  · rintro ⟨hmissing, ⟨hfrom, hto⟩, hleast⟩
    -- The search would have stopped at an earlier address of the block that is missing too.
    have hmax : ¬ max start size < a := fun hlt => by
      have hfound := hleast (max start size) (Nat.le_max_left _ _) hlt
      rw [Bool.not_eq_true', decide_eq_false_iff_not] at hfound
      exact hfound (Nat.le_max_right _ _)
    omega
  · rintro ⟨hlength, hend, rfl⟩
    refine ⟨Nat.le_max_right _ _, by omega, fun b hfrom hb => ?_⟩
    have hlt : b < size := by omega
    simpa using hlt

theorem missing?_block_eq_none {start length : Nat} (h : start + length ≤ size) :
    missing? (List.range' start length) = none := by
  refine Option.eq_none_iff_forall_ne_some.mpr fun a ha => ?_
  have hend := (missing?_block.mp ha).2.1
  omega

end Memory

/-- A check that memory has a block fails just if the block does not end within memory. -/
theorem Outcome.fault_check_range {α : Type} {m : Machine} {address : UInt16} {length : Nat}
    {hend : Memory.HasEnd address length} {b : α} {go : α → Outcome} {a : Nat} (hgo : (go b).fault ≠ some (.addressOutOfRange a)) :
    (check m (Memory.checkRange address length hend >>= fun _ => .ok b) go).fault =
        some (.addressOutOfRange a) ↔
      Memory.size < address.toNat + length ∧ a = max address.toNat Memory.size := by
  rw [Memory.checkRange_bind]
  split
  · rename_i hrange
    simp only [check_ok, hgo, false_iff, not_and]
    omega
  · rename_i hrange
    simp [Nat.not_le.mp hrange, eq_comm]

/-! ## Instructions -/

/-- The length of the block that an instruction asks memory for, if it asks for one. -/
def Instruction.span? : Instruction → Option Nat
  | draw _ _ rows => some rows.val
  | storeDecimal _ => some 3
  | save last | restore last => some (last.val + 1)
  | _ => none

/-- Only a sprite can have no bytes. -/
theorem Instruction.span?_eq_zero_iff {i : Instruction} :
    i.span? = some 0 ↔ ∃ x y, i = .draw x y 0 := by
  cases i with
  | draw x y rows =>
    rw [span?, Option.some.injEq]
    constructor
    · intro hrows
      exact ⟨x, y, by rw [show rows = 0 from Fin.ext hrows]⟩
    · rintro ⟨_, _, heq⟩
      cases heq
      rfl
  | _ => simp [span?]

/-- An instruction fails for want of a byte just if its block does not end within memory. -/
theorem Instruction.fault_effect_eq_address_iff {i : Instruction} {m : Machine} {a : Nat} :
    (i.effect m).fault = some (.addressOutOfRange a) ↔
      ∃ length, i.span? = some length ∧ Memory.size < m.index.toNat + length ∧
        a = max m.index.toNat Memory.size := by
  cases i with
  | draw x y rows =>
    simp only [span?, Option.some.injEq, exists_eq_left']
    refine Outcome.fault_check_range ?_
    let sprite := (List.range rows.val).map fun k => m.memory.byte (m.index.toNat + k)
    cases hplace : m.config.edges.placeAll (m.register x).toNat (m.register y).toNat
        (Sprite.litCells sprite) with
    | ok points => simp
    | error f =>
      obtain ⟨cell, -, -, rfl⟩ := EdgePolicy.of_placeAll_error hplace
      simp
  | storeDecimal x =>
    simp only [span?, Option.some.injEq, exists_eq_left']
    exact Outcome.fault_check_range (by simp)
  | save last =>
    have hlength : (m.registers.toList.take (last.val + 1)).length = last.val + 1 := by
      rw [List.length_take, Vector.length_toList]
      omega
    simp only [span?, Option.some.injEq, exists_eq_left']
    rw [← hlength]
    exact Outcome.fault_check_range (by simp)
  | restore last =>
    simp only [span?, Option.some.injEq, exists_eq_left']
    exact Outcome.fault_check_range (by simp)
  | leave =>
    rw [effect]
    cases m.calls.pop? <;> simp [span?]
  | call target =>
    rw [effect]
    cases m.calls.push? (m.pc + 2) <;> simp [span?]
  | _ => simp [effect, span?]

/-! ## Cycles -/

namespace Machine

/-- The addresses of the bytes the next cycle needs, in the order in which it asks for them. -/
def needs (m : Machine) : List Nat :=
  List.range' m.pc.toNat 2 ++ List.range' m.index.toNat ((m.due?.bind Instruction.span?).getD 0)

/-- Once an opcode is fetched, no byte is missing but one of the block. -/
theorem missing?_needs {m : Machine} {op : Opcode} (hf : m.memory.fetch m.pc = .ok op) :
    Memory.missing? m.needs =
      Memory.missing? (List.range' m.index.toNat ((m.due?.bind Instruction.span?).getD 0)) := by
  have hpc := Memory.le_size_of_fetch hf
  rw [needs, Memory.missing?_append, Memory.missing?_block_eq_none hpc, Option.none_or]

/-- A cycle that comes to no instruction needs its opcode only. -/
theorem missing?_needs_of_due?_none {m : Machine} (hdue : m.due? = none) {a : Nat} :
    Memory.missing? m.needs = some a ↔
      Memory.size < m.pc.toNat + 2 ∧ a = max m.pc.toNat Memory.size := by
  rw [needs, hdue, Option.bind_none, Option.getD_none, List.range'_zero, List.append_nil,
    Memory.missing?_block, and_iff_right (by decide)]

/-- **A cycle fails for want of a byte just if it needs one that memory lacks.** The fault names the
first of them. But a sprite without rows, which needs no byte of its own, fails too where the index
register points behind the end of memory, and the fault names what it points to. -/
theorem fault_names_missing_byte (m : Machine) (hw : m.isWaiting = false) (a : Nat) :
    m.step.fault = some (.addressOutOfRange a) ↔
      Memory.missing? m.needs = some a ∨
        (∃ x y, m.due? = some (.draw x y 0)) ∧ Memory.size < m.index.toNat ∧
          a = m.index.toNat := by
  cases m.stepCase with
  | waiting hwaits _ =>
    rw [hw] at hwaits
    cases hwaits
  | @unfetched f _ hf hs =>
    have hdue : m.due? = none := by simp [due?, hw, hf]
    rw [Memory.fetch_eq] at hf
    split at hf
    · cases hf
    · rename_i hrange
      rw [hs, ← Except.error.inj hf, missing?_needs_of_due?_none hdue, hdue]
      simp [Nat.not_le.mp hrange, eq_comm]
  | leftOut _ hf hd _ hs | refused _ hf hd _ hs =>
    have hdue : m.due? = none := by simp [due?, hw, hf, hd]
    have hpc := Nat.not_lt.mpr (Memory.le_size_of_fetch hf)
    rw [hs, missing?_needs_of_due?_none hdue, hdue]
    simp [hpc]
  | @executed i hi hs =>
    obtain ⟨-, op, hf, -⟩ := due?_eq_some_iff.mp hi
    rw [hs, Instruction.execute, Outcome.fault_onSuccess, Instruction.fault_effect_eq_address_iff,
      missing?_needs hf, Memory.missing?_block, hi, Option.bind_some]
    cases hspan : i.span? with
    | none =>
      have : ∀ x y, i ≠ .draw x y 0 := by
        rintro x y rfl
        cases hspan
      simp [this]
    | some length =>
      -- The check of a block lets one that ends within memory pass, so an empty block is refused
      -- only where it starts behind the end.
      have hzero := i.span?_eq_zero_iff
      rw [hspan, Option.some.injEq] at hzero
      simp only [Option.some.injEq, exists_eq_left', Option.getD_some, ← hzero]
      omega

/-- A program that saves six registers where memory has two bytes left. -/
theorem fault_names_missing_byte_of_save :
    let m := (create { preloadFont := false } (.ofList [])).after
      [.load [0xAF, 0xFE, 0xF5, 0x55], .step 1]
    m.isWaiting = false ∧ m.step.fault = some (.addressOutOfRange 0x1000) := by
  intro m
  have hw : m.isWaiting = false := by decide +kernel
  have hneeds : m.needs = List.range' 0x202 2 ++ List.range' 0xFFE 6 := by decide +kernel
  have hmissing : Memory.missing? m.needs = some 0x1000 := by
    rw [hneeds]
    decide
  exact ⟨hw, (fault_names_missing_byte m hw 0x1000).mpr (.inl hmissing)⟩

/-- A program that draws a sprite without rows from behind the end of memory. It needs no byte that
memory lacks, yet it fails, and nothing marks the display for presentation. -/
theorem empty_sprite_fails_behind_memory :
    let m := (create { preloadFont := false } (.ofList [])).after
      [.load [0xAF, 0xFF, 0x60, 0x02, 0xF0, 0x1E, 0xD0, 0x00], .step 3]
    (m.isWaiting = false ∧ m.due? = some (.draw 0 0 0)) ∧
      Memory.missing? m.needs = none ∧
        m.step.fault = some (.addressOutOfRange 0x1001) ∧ m.step.machine.display.dirty = false := by
  decide +kernel

end Machine
end ChipEight
