import ChipEight.Proofs.Drawing
import ChipEight.Proofs.Encoding
import ChipEight.Proofs.ProgramCounter
import ChipEight.Proofs.RandomStream
import ChipEight.Proofs.Stores

/-!
Places: the smallest things a machine consists of, such as one register, one byte of memory or one
cell of the display. Beside its places a machine has the random bytes it is given. `Opcode.Writes`
says by the nibbles of an opcode which places it may write, and `Opcode.next` where the program goes
on behind it. An opcode that succeeds keeps to both (`Machine.opcode_keeps_to_footprint`).
-/
namespace ChipEight

/-- The smallest things a machine consists of. -/
inductive Place where
  | config
  | register (r : Register)
  | index
  | pc
  /-- The number of slots of the call stack in use. -/
  | depth
  | slot (k : Fin 16)
  | delay
  | sound
  | key (k : Fin 16)
  | awaiting
  | byte (a : Address)
  | cell (p : Point)
  /-- Whether the frame is to be shown. -/
  | dirty

namespace Place

/-- Two machines agree in a place. -/
def Same : Place → Machine → Machine → Prop
  | config, m, m' => m'.config = m.config
  | register r, m, m' => m'.register r = m.register r
  | index, m, m' => m'.index = m.index
  | pc, m, m' => m'.pc = m.pc
  | depth, m, m' => m'.calls.depth = m.calls.depth
  | slot k, m, m' => m'.calls.slot k = m.calls.slot k
  | delay, m, m' => m'.delay = m.delay
  | sound, m, m' => m'.sound = m.sound
  | key k, m, m' => m'.keys.get k = m.keys.get k
  | awaiting, m, m' => m'.awaiting = m.awaiting
  | byte a, m, m' => m'.memory.byte a = m.memory.byte a
  | cell p, m, m' => m'.display.frame.lit p = m.display.frame.lit p
  | dirty, m, m' => m'.display.dirty = m.display.dirty

/-- The part of a machine that a place belongs to. -/
def part : Place → Part
  | config => .config
  | register _ => .registers
  | index => .index
  | pc => .pc
  | depth | slot _ => .calls
  | delay => .delay
  | sound => .sound
  | key _ => .keys
  | awaiting => .awaiting
  | byte _ => .memory
  | cell _ | dirty => .display

theorem same_of_part {place : Place} {m m' : Machine} (h : place.part.Same m m') :
    place.Same m m' := by
  cases place <;> simp_all [part, Part.Same, Same, Machine.register]

end Place

/-! ## Instructions -/

/-- Whether an operation writes the flag register. -/
def Arithmetic.flags : Arithmetic → Bool
  | copy | or | and | xor => false
  | add | subtract | shiftRight | subtractFrom | shiftLeft => true

theorem Arithmetic.flag?_of_not_flags {how : Arithmetic} (h : how.flags = false) (a b : UInt8) :
    how.flag? a b = none := by
  cases how with
  | copy | or | and | xor => rfl
  | _ => cases h

theorem Machine.register_setRegisters_of_length_le {m : Machine} {values : List UInt8}
    {r : Register} (h : values.length ≤ r.val) :
    (m.setRegisters values).register r = m.register r := by
  have hnone : values[r.val]? = none := List.getElem?_eq_none h
  simp [Machine.register, setRegisters, hnone]

namespace Instruction

/-- Whether an instruction may write a register. -/
def WritesRegister (m : Machine) (r : Register) : Instruction → Prop
  | set x _ | increase x _ | random x _ | readDelay x => r = x
  | combine how x _ => r = x ∨ r = Machine.flag ∧ how.flags = true
  | draw .. => r = Machine.flag
  | advance _ => r = Machine.flag ∧ m.config.overflow = .setFlag
  | restore last => r ≤ last
  | _ => False

/-- Whether an instruction may write the byte at an address. -/
def WritesByte (m : Machine) (a : Address) : Instruction → Prop
  | storeDecimal _ => m.index.toNat ≤ a.val ∧ a.val < m.index.toNat + 3
  | save last => m.index.toNat ≤ a.val ∧ a.val ≤ m.index.toNat + last.val
  | _ => False

/-- The places an instruction may write, the program counter aside. -/
def Writes (m : Machine) (i : Instruction) : Place → Prop
  | .register r => i.WritesRegister m r
  | .slot k => (∃ target, i = .call target) ∧ k.val = m.calls.depth
  | .byte a => i.WritesByte m a
  | place => place.part ∈ i.touches

theorem register_effect {i : Instruction} {m : Machine} {r : Register}
    (hok : (i.effect m).fault = none) (hr : ¬ i.WritesRegister m r) :
    (i.effect m).machine.register r = m.register r := by
  cases i with
  | set x _ | increase x _ | random x _ | readDelay x =>
    exact (m.register_setRegister x r _).trans (if_neg fun hx => hr hx.symm)
  | combine how x y =>
    simp only [WritesRegister, not_or, not_and] at hr
    obtain ⟨hx, hflag⟩ := hr
    rw [effect, Outcome.machine_success, Machine.register_combine]
    cases hflags : how.flags with
    | false =>
      rw [Arithmetic.flag?_of_not_flags hflags]
      exact if_neg hx
    | true =>
      cases how.flag? (m.register x) (m.register y) with
      | none => exact if_neg hx
      | some on => exact (if_neg fun h => hflag h hflags).trans (if_neg hx)
  | draw x y rows =>
    obtain ⟨points, hdraw⟩ := exists_effect_draw hok
    rw [hdraw]
    exact (m.register_setRegister Machine.flag r _).trans (if_neg fun h => hr h.symm)
  | advance x =>
    rw [effect, Outcome.machine_success, Machine.register_advanceIndex]
    exact if_neg hr
  | restore last =>
    have hlast : last.val < r.val := Nat.lt_of_not_le hr
    rw [effect, Memory.read_eq] at hok ⊢
    split at hok
    · rename_i hrange
      rw [if_pos hrange]
      apply Machine.register_setRegisters_of_length_le
      rw [List.length_map, List.length_range]
      omega
    · cases hok
  | _ =>
    show (Place.register r).Same m _
    refine Place.same_of_part (effect_same _ m ?_)
    simp [Place.part, touches]

theorem slot_effect {i : Instruction} {m : Machine} {k : Fin 16}
    (hk : ¬ ((∃ target, i = .call target) ∧ k.val = m.calls.depth)) :
    (i.effect m).machine.calls.slot k = m.calls.slot k := by
  cases i with
  | call target =>
    rw [effect]
    cases hpush : m.calls.push? (m.pc + 2) with
    | none => rfl
    | some calls =>
      have hdepth : k.val ≠ m.calls.depth := fun h => hk ⟨⟨target, rfl⟩, h⟩
      exact (CallStack.slot_push? hpush k).trans (if_neg hdepth)
  | leave =>
    rw [effect]
    cases hpop : m.calls.pop? with
    | none => rfl
    | some calls => exact CallStack.slot_pop? hpop k
  | _ =>
    show (Place.slot k).Same m _
    refine Place.same_of_part (effect_same _ m ?_)
    simp [Place.part, touches]

theorem byte_effect {i : Instruction} {m : Machine} {a : Address}
    (hok : (i.effect m).fault = none) (ha : ¬ i.WritesByte m a) :
    (i.effect m).machine.memory.byte a = m.memory.byte a := by
  rw [memory_effect hok]
  cases i with
  | storeDecimal x =>
    have hout : ¬ (m.index.toNat ≤ a.val ∧ a.val < m.index.toNat + 3 ∧ a.val < Memory.size) :=
      fun h => ha ⟨h.1, h.2.1⟩
    exact (Memory.byte_put ..).trans (if_neg hout)
  | save last =>
    have hlength : (((List.finRange 16).take (last.val + 1)).map m.register).length =
        last.val + 1 := by
      rw [List.length_map, List.length_take, List.length_finRange]
      omega
    have hout : ¬ (m.index.toNat ≤ a.val ∧ a.val < m.index.toNat + (last.val + 1) ∧
        a.val < Memory.size) := fun h => ha ⟨h.1, by omega⟩
    show (m.memory.put _ _).byte a = _
    rw [Memory.byte_put, hlength, if_neg hout]
  | _ => rfl

/-- An instruction that succeeds writes no other places than its own and the program counter. -/
theorem same_of_not_writes {i : Instruction} {m : Machine} {place : Place}
    (hok : (i.effect m).fault = none) (h : ¬ i.Writes m place) :
    place.Same m (i.effect m).machine := by
  cases place with
  | register r => exact register_effect hok h
  | slot k => exact slot_effect h
  | byte a => exact byte_effect hok h
  | _ => exact Place.same_of_part (effect_same i m h)

end Instruction

/-! ## Opcodes -/

namespace Opcode

/-- Whether an opcode may write a register: `VX`, the flag register, or every register up to
`VX`. -/
def WritesRegister (m : Machine) (op : Opcode) (r : Register) : Prop :=
  r = op.x ∧
      (op.family.val = 0x6 ∨ op.family.val = 0x7 ∨ op.family.val = 0xC ∨
        op.family.val = 0x8 ∧ (op.n.val ≤ 0x7 ∨ op.n.val = 0xE) ∨ op.family.val = 0xF ∧ op.byte = 0x07) ∨
    r = Machine.flag ∧
      (op.family.val = 0x8 ∧ (0x4 ≤ op.n.val ∧ op.n.val ≤ 0x7 ∨ op.n.val = 0xE) ∨ op.family.val = 0xD ∨
        op.family.val = 0xF ∧ op.byte = 0x1E ∧ m.config.overflow = .setFlag) ∨
    r ≤ op.x ∧ op.family.val = 0xF ∧ op.byte = 0x65

instance (m : Machine) (op : Opcode) (r : Register) : Decidable (op.WritesRegister m r) :=
  inferInstanceAs (Decidable (_ ∨ _))

/-- The places an opcode may write. -/
def Writes (m : Machine) (op : Opcode) : Place → Prop
  | .register r => op.WritesRegister m r
  | .index => op.family.val = 0xA ∨ op.family.val = 0xF ∧ (op.byte = 0x1E ∨ op.byte = 0x29)
  | .pc => True
  | .depth => op.family.val = 0x2 ∨ op.family.val = 0x0 ∧ op.address.val = 0x0EE
  | .slot k => op.family.val = 0x2 ∧ k.val = m.calls.depth
  | .delay => op.family.val = 0xF ∧ op.byte = 0x15
  | .sound => op.family.val = 0xF ∧ op.byte = 0x18
  | .awaiting => op.family.val = 0xF ∧ op.byte = 0x0A
  | .byte a =>
      op.family.val = 0xF ∧ m.index.toNat ≤ a.val ∧
        (op.byte = 0x33 ∧ a.val < m.index.toNat + 3 ∨
          op.byte = 0x55 ∧ a.val ≤ m.index.toNat + op.x.val)
  | .cell _ | .dirty => op.family.val = 0xD ∨ op.family.val = 0x0 ∧ op.address.val = 0x0E0
  | .config | .key _ => False

/-- Whether an opcode leaves out the one behind it. -/
def Skips (m : Machine) (op : Opcode) : Prop :=
  op.family.val = 0x3 ∧ m.register op.x = op.byte ∨
    op.family.val = 0x4 ∧ m.register op.x ≠ op.byte ∨
    op.family.val = 0x5 ∧ op.n.val = 0 ∧ m.register op.x = m.register op.y ∨
    op.family.val = 0x9 ∧ op.n.val = 0 ∧ m.register op.x ≠ m.register op.y ∨
    op.family.val = 0xE ∧ op.byte = 0x9E ∧ m.keyDown (m.register op.x) = true ∨
    op.family.val = 0xE ∧ op.byte = 0xA1 ∧ m.keyDown (m.register op.x) = false

instance (m : Machine) (op : Opcode) : Decidable (op.Skips m) :=
  inferInstanceAs (Decidable (_ ∨ _))

/-- The address that the program goes on at behind an opcode. -/
def next (m : Machine) (op : Opcode) : Nat :=
  if op.family.val = 0x1 ∨ op.family.val = 0x2 then op.address
  else if op.family.val = 0xB then (m.registers[0]?.getD 0).toNat + op.address
  else if op.family.val = 0x0 ∧ op.address.val = 0x0EE then (m.calls.slot (m.calls.depth - 1)).toNat
  else if op.Skips m then (m.pc.toNat + 4) % 0x10000
  else (m.pc.toNat + 2) % 0x10000

end Opcode

namespace Instruction

theorem writesRegister_opcode {i : Instruction} {m : Machine} {r : Register}
    (h : i.WritesRegister m r) : i.opcode.WritesRegister m r := by
  cases i with
  | combine how x y =>
    cases how <;> simp_all [opcode, WritesRegister, Opcode.WritesRegister, Arithmetic.flags,
      Arithmetic.nibble]
  | _ => simp_all [opcode, WritesRegister, Opcode.WritesRegister]

theorem writesByte_opcode {i : Instruction} {m : Machine} {a : Address}
    (h : i.WritesByte m a) : i.opcode.Writes m (.byte a) := by
  cases i with
  | storeDecimal | save => simp_all [opcode, WritesByte, Opcode.Writes]
  | _ => cases h

/-- What an instruction may write can be told from its opcode. -/
theorem writes_opcode {i : Instruction} {m : Machine} {place : Place} (h : i.Writes m place) :
    i.opcode.Writes m place := by
  cases place with
  | register r => exact writesRegister_opcode h
  | byte a => exact writesByte_opcode h
  | slot k =>
    obtain ⟨⟨target, rfl⟩, hk⟩ := h
    exact ⟨Opcode.family_ofAddress .., hk⟩
  | pc => trivial
  | _ =>
    cases i with
    | clear | leave =>
      first
        | exact .inr ⟨rfl, rfl⟩
        | simp [Writes, Place.part, touches] at h
    | _ => simp_all [Writes, Place.part, touches, Opcode.Writes, opcode]

theorem skips_opcode {test : Test} {m : Machine} :
    (skip test).opcode.Skips m ↔ test.passes m = true := by
  cases test <;> simp [opcode, Opcode.Skips, Test.passes]

/-- Where an instruction leads can be told from its opcode. -/
theorem toNat_next (i : Instruction) (m : Machine) : (i.next m).toNat = i.opcode.next m := by
  have hadd : ∀ k : UInt16, (m.pc + k).toNat = (m.pc.toNat + k.toNat) % 0x10000 := fun k =>
    UInt16.toNat_add m.pc k
  cases i with
  | jump target | call target =>
    show (UInt16.ofNat target.val).toNat = _
    rw [Machine.toNat_ofAddress]
    simp [Opcode.next, opcode]
  | jumpBy base =>
    have hsum : base.val + (m.register 0).toNat < 2 ^ 16 := by
      have := (m.register 0).toNat_lt
      omega
    show (UInt16.ofNat (base.val + (m.register 0).toNat)).toNat = _
    rw [UInt16.toNat_ofNat', Nat.mod_eq_of_lt hsum]
    simp [Opcode.next, opcode, Machine.register, Nat.add_comm]
  | clear =>
    have hfamily : clear.opcode.family.val = 0x0 := rfl
    have haddress : clear.opcode.address.val = 0x0E0 := rfl
    show (m.pc + 2).toNat = _
    simp [hadd, Opcode.next, Opcode.Skips, hfamily, haddress]
  | leave =>
    have hfamily : leave.opcode.family.val = 0x0 := rfl
    have haddress : leave.opcode.address.val = 0x0EE := rfl
    show (m.calls.slot (m.calls.depth - 1)).toNat = _
    simp [Opcode.next, hfamily, haddress]
  | skip test =>
    show (if test.passes m then m.pc + 4 else m.pc + 2).toNat = _
    have hskips : (skip test).opcode.Skips m ↔ test.passes m = true := skips_opcode
    have hnext : (skip test).opcode.next m =
        if (skip test).opcode.Skips m then (m.pc.toNat + 4) % 0x10000
        else (m.pc.toNat + 2) % 0x10000 := by
      cases test <;> simp [Opcode.next, opcode]
    rw [hnext]
    split <;> simp_all
  | combine how x y =>
    show (m.pc + 2).toNat = _
    cases how <;> simp [hadd, Opcode.next, opcode, Opcode.Skips]
  | _ =>
    show (m.pc + 2).toNat = _
    simp [hadd, Opcode.next, opcode, Opcode.Skips]

end Instruction

/-- An opcode that stands for no instruction is passed over. -/
theorem Opcode.next_of_decode?_eq_none {op : Opcode} (h : Instruction.decode? op = none)
    (m : Machine) : op.next m = (m.pc.toNat + 2) % 0x10000 := by
  have hne : ∀ i : Instruction, op ≠ i.opcode := by
    rintro i rfl
    rw [Instruction.decode?_opcode] at h
    cases h
  have hskips : ¬ op.Skips m := by
    rintro (⟨hf, -⟩ | ⟨hf, -⟩ | ⟨hf, hn, -⟩ | ⟨hf, hn, -⟩ | ⟨hf, hb, -⟩ | ⟨hf, hb, -⟩)
    · exact hne (.skip (.holds op.x op.byte)) (eq_ofByte hf)
    · exact hne (.skip (.lacks op.x op.byte)) (eq_ofByte hf)
    · exact hne (.skip (.same op.x op.y)) (eq_ofRegisters hf hn)
    · exact hne (.skip (.different op.x op.y)) (eq_ofRegisters hf hn)
    · exact hne (.skip (.pressed op.x)) ((eq_ofByte hf).trans (by rw [hb]; rfl))
    · exact hne (.skip (.released op.x)) ((eq_ofByte hf).trans (by rw [hb]; rfl))
  rw [next, if_neg, if_neg, if_neg, if_neg hskips]
  · rintro ⟨hf, ha⟩
    have haddress : op.address = 0x0EE := Fin.ext ha
    exact hne .leave ((eq_ofAddress hf).trans (by rw [haddress]; rfl))
  · exact fun hf => hne (.jumpBy op.address) (eq_ofAddress hf)
  · rintro (hf | hf)
    · exact hne (.jump op.address) (eq_ofAddress hf)
    · exact hne (.call op.address) (eq_ofAddress hf)

namespace Machine

/-- The ways an opcode can succeed. -/
inductive SuccessCase (m : Machine) (op : Opcode) : Prop where
  | executed {i : Instruction} (hop : op = i.opcode) (hok : (i.effect m).fault = none)
      (h : (m.execute op).machine = { (i.effect m).machine with pc := i.next m })
  | leftOut (hd : Instruction.decode? op = none)
      (h : (m.execute op).machine = { m with pc := m.pc + 2 })

theorem successCase {m : Machine} {op : Opcode} (hok : (m.execute op).fault = none) :
    SuccessCase m op := by
  cases hd : Instruction.decode? op with
  | some i =>
    obtain rfl := Instruction.eq_opcode_of_decode? hd
    rw [execute_opcode, Instruction.execute, Outcome.fault_onSuccess] at hok
    refine .executed rfl hok ?_
    rw [execute_opcode, Instruction.execute, Outcome.onSuccess_of_none hok]
    rfl
  | none =>
    cases hp : m.config.unknown with
    | skip => exact .leftOut hd (by rw [execute_of_skip hd hp]; rfl)
    | fail =>
      rw [execute_of_fail hd hp] at hok
      cases hok

theorem same_of_not_writes {m : Machine} {op : Opcode} {place : Place}
    (hok : (m.execute op).fault = none) (h : ¬ op.Writes m place) :
    place.Same m (m.execute op).machine := by
  -- The program counter is the one place that every opcode writes.
  have hpc : place ≠ .pc := by
    rintro rfl
    exact h trivial
  cases successCase hok with
  | @executed i hop heffect hnow =>
    have hsame : place.Same m (i.effect m).machine := by
      refine Instruction.same_of_not_writes heffect fun hwrites => h ?_
      rw [hop]
      exact Instruction.writes_opcode hwrites
    rw [hnow]
    cases place <;> first | exact absurd rfl hpc | exact hsame
  | leftOut hd hnow =>
    rw [hnow]
    cases place <;> first | exact absurd rfl hpc | rfl

theorem toNat_pc_execute {m : Machine} {op : Opcode} (hok : (m.execute op).fault = none) :
    (m.execute op).machine.pc.toNat = op.next m := by
  cases successCase hok with
  | @executed i hop heffect hnow =>
    rw [hnow, hop]
    exact i.toNat_next m
  | leftOut hd hnow =>
    rw [hnow, Opcode.next_of_decode?_eq_none hd]
    exact UInt16.toNat_add m.pc 2

/-- **An opcode keeps to its footprint.** An opcode that succeeds leaves every place alone that it
does not write, and the program goes on where the opcode leads: each place of the machine is told
from the nibbles of the opcode, the random bytes included. -/
theorem opcode_keeps_to_footprint (m : Machine) (op : Opcode)
    (hok : (m.execute op).fault = none) :
    let now := (m.execute op).machine
    (∀ place, ¬ op.Writes m place → place.Same m now) ∧
      now.pc.toNat = op.next m ∧
      now.random = if op.family.val = 0xC then m.random.advance else m.random := by
  intro now
  refine ⟨fun place h => same_of_not_writes hok h, toNat_pc_execute hok, ?_⟩
  rw [random_execute]
  simp only [Opcode.takesByte_iff]

/-- A call from the last opcode of all takes the last slot of the call stack. -/
theorem opcode_keeps_to_footprint_of_last_call :
    let m : Machine :=
      { bare {} (.ofList [7]) with calls := ⟨Vector.replicate 16 0x2AA, 15⟩, pc := 0xFFFE }
    let now := (m.execute ⟨0x2ABC⟩).machine
    (m.execute ⟨0x2ABC⟩).fault = none ∧ now.pc.toNat = 0xABC ∧ now.random = m.random ∧
      (∀ k : Fin 16, k ≠ 15 → now.calls.slot k = 0x2AA) ∧ (∀ r, now.register r = 0) ∧
      ∀ a : Address, now.memory.byte a = 0 := by
  intro m now
  have hok : (m.execute ⟨0x2ABC⟩).fault = none := by decide
  obtain ⟨hsame, hpc, hrandom⟩ := opcode_keeps_to_footprint m ⟨0x2ABC⟩ hok
  have hslots : ∀ k : Fin 16, k ≠ 15 → now.calls.slot k = m.calls.slot k := by
    intro k hk
    exact hsame (.slot k) fun h => hk (Fin.ext h.2)
  have hregisters : ∀ r, now.register r = m.register r := by
    have hwrites : ∀ r, ¬ (⟨0x2ABC⟩ : Opcode).WritesRegister m r := by decide
    exact fun r => hsame (.register r) (hwrites r)
  have hbytes : ∀ a : Address, now.memory.byte a = m.memory.byte a := by
    have hfamily : (⟨0x2ABC⟩ : Opcode).family.val ≠ 0xF := by decide
    exact fun a => hsame (.byte a) fun h => hfamily h.1
  refine ⟨hok, hpc, hrandom, fun k hk => (hslots k hk).trans ?_, fun r => ?_, fun a => ?_⟩
  · revert k
    decide
  · rw [hregisters]
    revert r
    decide
  · rw [hbytes]
    exact Memory.byte_empty a

end Machine
end ChipEight
