import ChipEight.Proofs.Encoding
import ChipEight.Proofs.Footprint

/-!
Arithmetic on registers, in whole numbers. `Arithmetic.exact?` says what the operations with a flag
compute, for any two bytes. The operands are read before anything is written and the flag is written
after the result, so whichever registers an opcode names, and be one of them the flag register, the
same table tells what all registers hold afterwards (`Machine.heldWith`).
-/
namespace ChipEight

/-- The result and the flag of an operation, computed with whole numbers; nothing for an operation
without a flag. -/
def Arithmetic.exact? (a b : Nat) : Arithmetic → Option (Int × Int)
  | copy | or | and | xor => none
  | add => some ((a + b) % 256, (a + b) / 256)
  | subtract => some ((a - b : Int) % 256, if b ≤ a then 1 else 0)
  | shiftRight => some (a / 2, a % 2)
  | subtractFrom => some ((b - a : Int) % 256, if a ≤ b then 1 else 0)
  | shiftLeft => some (2 * a % 256, a / 128)

theorem Arithmetic.flag?_of_exact? {how : Arithmetic} {a b : UInt8} {result flag : Int}
    (h : how.exact? a.toNat b.toNat = some (result, flag)) :
    ∃ on : Bool, how.flag? a b = some on ∧ (how.value a b).toNat = result ∧
      (if on then 1 else 0) = flag := by
  have ha := a.toNat_lt
  have hb := b.toNat_lt
  cases how with
  | copy | or | and | xor => cases h
  | add =>
    cases h
    refine ⟨_, rfl, ?_, ?_⟩
    · rw [value, UInt8.toNat_add]
      omega
    · simp only [decide_eq_true_eq]
      split <;> omega
  | subtract =>
    cases h
    refine ⟨_, rfl, ?_, ?_⟩
    · rw [value, UInt8.toNat_sub]
      omega
    · simp only [decide_eq_true_eq, UInt8.le_iff_toNat_le]
  | shiftRight =>
    cases h
    refine ⟨_, rfl, ?_, ?_⟩
    · rw [value, UInt8.toNat_shiftRight]
      simp [Nat.shiftRight_eq_div_pow]
    · simp only [decide_eq_true_eq]
      split <;> omega
  | subtractFrom =>
    cases h
    refine ⟨_, rfl, ?_, ?_⟩
    · rw [value, UInt8.toNat_sub]
      omega
    · simp only [decide_eq_true_eq, UInt8.le_iff_toNat_le]
  | shiftLeft =>
    cases h
    refine ⟨_, rfl, ?_, ?_⟩
    · rw [value, UInt8.toNat_shiftLeft]
      simp [Nat.shiftLeft_eq]
      omega
    · simp only [decide_eq_true_eq]
      split <;> omega

namespace Machine

/-- What the registers hold after an operation on register `x`, with its flag in the flag
register. -/
def heldWith (m : Machine) (x : Register) (result flag : Int) (r : Register) : Int :=
  if r = Machine.flag then flag else if r = x then result else (m.register r).toNat

/-- An opcode succeeds, puts these numbers into the registers and the index register, and changes
nothing else. -/
structure Leaves (m : Machine) (op : Opcode) (held : Register → Int) (index : Nat) : Prop where
  succeeds : (m.execute op).fault = none
  registers : ∀ r, ((m.execute op).machine.register r).toNat = held r
  index : (m.execute op).machine.index.toNat = index
  rest : (m.execute op).machine =
    { m with
      registers := (m.execute op).machine.registers
      index := (m.execute op).machine.index
      pc := m.pc + 2 }

theorem leaves_of_execute {m n : Machine} {op : Opcode} {held : Register → Int} {index : Nat}
    (hexecute : m.execute op = .success { n with pc := m.pc + 2 })
    (hrest : n = { m with registers := n.registers, index := n.index })
    (hregisters : ∀ r, (n.register r).toNat = held r) (hindex : n.index.toNat = index) :
    m.Leaves op held index := by
  constructor
  · rw [hexecute]
    rfl
  · rw [hexecute]
    exact hregisters
  · rw [hexecute]
    exact hindex
  · rw [hexecute, hrest]
    rfl

/-- An operation with a flag comes to what the table says, whatever registers it is done on. -/
theorem leaves_combine (m : Machine) (how : Arithmetic) {x y : Register} {result flag : Int}
    (h : how.exact? (m.register x).toNat (m.register y).toNat = some (result, flag)) :
    m.Leaves (.ofRegisters 0x8 x y how.nibble) (m.heldWith x result flag) m.index.toNat := by
  obtain ⟨on, hflag, hresult, hon⟩ := Arithmetic.flag?_of_exact? h
  have hexecute : m.execute (.ofRegisters 0x8 x y how.nibble) =
      .success { m.combine how x y with pc := m.pc + 2 } :=
    m.execute_opcode (.combine how x y)
  have hindex : (m.combine how x y).index = m.index := by rw [m.combine_eq]
  refine leaves_of_execute hexecute ?_ (fun r => ?_) (by rw [hindex])
  · rw [hindex]
    exact m.combine_eq how x y
  · rw [register_combine, hflag, heldWith]
    dsimp only
    split
    · rw [← hon]
      cases on <;> rfl
    · split
      · exact hresult
      · rfl

theorem leaves_increase (m : Machine) (x : Register) (value : UInt8) :
    m.Leaves (.ofByte 0x7 x value)
      (fun r => if r = x then ((m.register x).toNat + value.toNat) % 256 else (m.register r).toNat)
      m.index.toNat := by
  have hexecute : m.execute (.ofByte 0x7 x value) =
      .success { m.setRegister x (m.register x + value) with pc := m.pc + 2 } :=
    m.execute_opcode (.increase x value)
  refine leaves_of_execute hexecute rfl (fun r => ?_) rfl
  rw [register_setRegister]
  by_cases hr : r = x
  · rw [if_pos hr.symm, if_pos hr, UInt8.toNat_add]
    rfl
  · rw [if_neg (Ne.symm hr), if_neg hr]

theorem leaves_advance (m : Machine) (x : Register) :
    m.Leaves (.ofByte 0xF x 0x1E)
      (fun r =>
        if r = flag ∧ m.config.overflow = .setFlag then
          if 0xFFF < m.index.toNat + (m.register x).toNat then 1 else 0
        else (m.register r).toNat)
      ((m.index.toNat + (m.register x).toNat) % 65536) := by
  have hexecute : m.execute (.ofByte 0xF x 0x1E) =
      .success { m.advanceIndex x with pc := m.pc + 2 } :=
    m.execute_opcode (.advance x)
  refine leaves_of_execute hexecute (m.advanceIndex_eq x) (fun r => ?_) ?_
  · rw [register_advanceIndex, indexSum]
    split
    · split <;> rfl
    · rfl
  · rw [index_advanceIndex, UInt16.toNat_ofNat']
    rfl

/-- **Arithmetic is exact, also where registers coincide.** With `a` and `b` the numbers that two
registers hold, be they one register or be one of them the flag register: each operation leaves its
result in the first of them and its flag in the flag register, and the flag wins where both are one.
The addition of a byte has no flag, and adding to the index register has one only under the policy
that reports it. Nothing else changes. -/
theorem flag_arithmetic_exact (m : Machine) (x y : Register) (value : UInt8) :
    let a := (m.register x).toNat
    let b := (m.register y).toNat
    let index := m.index.toNat
    m.Leaves (.ofRegisters 0x8 x y 0x4) (m.heldWith x ((a + b) % 256) ((a + b) / 256)) index ∧
      m.Leaves (.ofRegisters 0x8 x y 0x5) (m.heldWith x ((a - b) % 256) (if b ≤ a then 1 else 0))
        index ∧
      m.Leaves (.ofRegisters 0x8 x y 0x7) (m.heldWith x ((b - a) % 256) (if a ≤ b then 1 else 0))
        index ∧
      m.Leaves (.ofRegisters 0x8 x y 0x6) (m.heldWith x (a / 2) (a % 2)) index ∧
      m.Leaves (.ofRegisters 0x8 x y 0xE) (m.heldWith x (2 * a % 256) (a / 128)) index ∧
      m.Leaves (.ofByte 0x7 x value)
        (fun r => if r = x then (a + value.toNat) % 256 else (m.register r).toNat) index ∧
      m.Leaves (.ofByte 0xF x 0x1E)
        (fun r =>
          if r = flag ∧ m.config.overflow = .setFlag then if 0xFFF < index + a then 1 else 0
          else (m.register r).toNat)
        ((index + a) % 65536) := by
  intro a b index
  exact ⟨m.leaves_combine .add rfl, m.leaves_combine .subtract rfl,
    m.leaves_combine .subtractFrom rfl, m.leaves_combine .shiftRight rfl,
    m.leaves_combine .shiftLeft rfl, m.leaves_increase x value, m.leaves_advance x⟩

/-- The flag register added to itself is left with the carry. -/
example :
    let m : Machine := { bare {} (.ofList []) with registers := .replicate 16 200 }
    ((m.execute (.ofRegisters 0x8 flag flag 0x4)).machine.register flag) = 1 := by
  decide

end Machine
end ChipEight
