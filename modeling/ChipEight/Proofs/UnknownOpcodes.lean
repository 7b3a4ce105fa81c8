import ChipEight.Proofs.Policies

/-!
Unknown opcodes. `Opcode.Unknown` lists, by their nibbles, the opcodes that stand for no
instruction; `Instruction.decode?_eq_none_iff` says that the list is complete. Such an opcode does
nothing but what the machine's policy says: it is refused, or it is left out with a warning. No
other opcode can tell the two policies apart.
-/
namespace ChipEight

/-- The opcodes that stand for no instruction. -/
def Opcode.Unknown (op : Opcode) : Prop :=
  op.family.val = 0x0 ∧ op.address.val ∉ [0x0E0, 0x0EE] ∨
    op.family.val ∈ [0x5, 0x9] ∧ op.n.val ≠ 0x0 ∨
    op.family.val = 0x8 ∧ op.n.val ∈ [0x8, 0x9, 0xA, 0xB, 0xC, 0xD, 0xF] ∨
    op.family.val = 0xE ∧ op.byte.toNat ∉ [0x9E, 0xA1] ∨
    op.family.val = 0xF ∧
      op.byte.toNat ∉ [0x07, 0x0A, 0x15, 0x18, 0x1E, 0x29, 0x33, 0x55, 0x65]

instance (op : Opcode) : Decidable op.Unknown :=
  inferInstanceAs (Decidable (_ ∨ _))

theorem Arithmetic.ofNibble?_eq_none_iff (n : Fin 16) :
    ofNibble? n = none ↔ n.val ∈ [0x8, 0x9, 0xA, 0xB, 0xC, 0xD, 0xF] := by
  revert n
  decide

namespace Instruction

theorem ofLowByte?_eq_none_iff (x : Register) (low : UInt8) :
    ofLowByte? x low = none ↔
      low.toNat ∉ [0x07, 0x0A, 0x15, 0x18, 0x1E, 0x29, 0x33, 0x55, 0x65] := by
  unfold ofLowByte?
  split <;> simp_all

/-- No opcode but the unknown ones stands for no instruction. -/
theorem decode?_eq_none_iff {op : Opcode} : decode? op = none ↔ op.Unknown := by
  unfold decode?
  split
  case h_1 hfamily =>
    simp only [Opcode.Unknown, hfamily]
    split <;> simp_all
  case h_6 hfamily | h_10 hfamily => simp [Opcode.Unknown, hfamily]
  case h_9 hfamily =>
    simp [Opcode.Unknown, hfamily, Arithmetic.ofNibble?_eq_none_iff]
  case h_15 hfamily =>
    simp only [Opcode.Unknown, hfamily]
    split <;> simp_all
  case h_16 =>
    have hfamily : op.family.val = 0xF := by
      have := op.family.isLt
      grind
    simp [Opcode.Unknown, hfamily, ofLowByte?_eq_none_iff]
  all_goals
    rename_i hfamily
    simp [Opcode.Unknown, hfamily]

/-- The whole address counts where the family is zero, not the low byte alone. -/
example : decode? ⟨0x00E0⟩ = some .clear ∧ (⟨0x01E0⟩ : Opcode).Unknown := by decide

end Instruction

/-! ## What is known does not fail as unknown -/

theorem Outcome.fault_check_ne {α : Type} {m : Machine} {found : Except Fault α} {go : α → Outcome}
    {f : Fault} (hfound : found ≠ .error f) (hgo : ∀ a, (go a).fault ≠ some f) :
    (check m found go).fault ≠ some f := by
  cases found with
  | ok a => exact hgo a
  | error f' =>
    intro h
    cases h
    exact hfound rfl

namespace Instruction
variable (op : Opcode) (pc : UInt16)

theorem fault_effect_ne_unknown (i : Instruction) (m : Machine) :
    (i.effect m).fault ≠ some (.unknownOpcode op pc) := by
  have hrange {α : Type} (address : UInt16) (length : Nat) hend (a : α) :
      (Memory.checkRange address length hend >>= fun _ => .ok a) ≠
        .error (.unknownOpcode op pc) := by
    intro h
    cases Memory.error_of_checkRange_bind h
  cases i with
  | leave =>
    rw [effect]
    cases m.calls.pop? <;> simp
  | call target =>
    rw [effect]
    cases m.calls.push? (m.pc + 2) <;> simp
  | draw x y rows =>
    refine Outcome.fault_check_ne (hrange _ _ _ _) fun sprite => Outcome.fault_check_ne ?_ (by simp)
    intro h
    obtain ⟨cell, -, -, hcell⟩ := EdgePolicy.of_placeAll_error h
    cases hcell
  | storeDecimal | save | restore => exact Outcome.fault_check_ne (hrange _ _ _ _) (by simp)
  | _ => simp [effect]

theorem fault_execute_ne_unknown (i : Instruction) (m : Machine) :
    (i.execute m).fault ≠ some (.unknownOpcode op pc) := by
  rw [execute, Outcome.fault_onSuccess]
  exact i.fault_effect_ne_unknown op pc m

end Instruction

namespace Machine

/-- An opcode that is refused as unknown is unknown, and the fault names it and its address. -/
theorem unknown_of_fault_execute {m : Machine} {op other : Opcode} {pc : UInt16}
    (h : (m.execute op).fault = some (.unknownOpcode other pc)) :
    op.Unknown ∧ other = op ∧ pc = m.pc := by
  rw [execute] at h
  cases hd : Instruction.decode? op with
  | some i =>
    rw [hd] at h
    exact absurd h (i.fault_execute_ne_unknown other pc m)
  | none =>
    rw [hd] at h
    refine ⟨Instruction.decode?_eq_none_iff.mp hd, ?_⟩
    cases hp : m.config.unknown with
    | skip => simp [hp] at h
    | fail =>
      rw [hp] at h
      cases h
      exact ⟨rfl, rfl⟩

/-! ## Policies -/

/-- The same machine under another policy for unknown opcodes. -/
def withUnknown (m : Machine) (unknown : UnknownPolicy) : Machine :=
  { m with config := { m.config with unknown } }

theorem executeLog_of_unknown {m : Machine} {op : Opcode} (h : op.Unknown)
    (hp : m.config.unknown = .skip) : m.executeLog op = [.leftOut op m.pc] :=
  if_pos ⟨Instruction.decode?_eq_none_iff.mpr h, hp⟩

theorem executeLog_of_known {m : Machine} {op : Opcode} (h : ¬ op.Unknown) :
    m.executeLog op = [] :=
  if_neg fun hnone => h (Instruction.decode?_eq_none_iff.mp hnone.1)

/-- An opcode that stands for an instruction does the same whatever is done with those that do
not. -/
theorem execute_withUnknown {op : Opcode} (h : ¬ op.Unknown) (m : Machine)
    (one other : UnknownPolicy) :
    (m.withUnknown other).execute op =
      ⟨((m.withUnknown one).execute op).machine.withUnknown other,
        ((m.withUnknown one).execute op).fault⟩ := by
  obtain ⟨i, hi⟩ : ∃ i, Instruction.decode? op = some i :=
    Option.ne_none_iff_exists'.mp fun hnone => h (Instruction.decode?_eq_none_iff.mp hnone)
  rw [execute, execute, hi]
  have hstart : Reconfigured (m.withUnknown one).config (m.withUnknown other).config
      (m.withUnknown one) (m.withUnknown other) := ⟨rfl, rfl⟩
  have halike := (reconfigured_iff.mp hstart).2.2
  obtain ⟨hmachine, hfault⟩ := i.execute_alike halike
    (i.effect_alike halike (by intros; rfl) (by intros; rfl) (by intros; rfl))
  have hconfig := i.config_execute (m.withUnknown one)
  have hsame : (i.execute (m.withUnknown other)).machine =
      { (i.execute (m.withUnknown one)).machine with config := (m.withUnknown other).config } :=
    (reconfigured_iff.mpr ⟨hconfig, i.config_execute _, hmachine⟩).same
  have hmachines : (i.execute (m.withUnknown other)).machine =
      (i.execute (m.withUnknown one)).machine.withUnknown other := by
    rw [hsame, eq_comm]
    generalize (i.execute (m.withUnknown one)).machine = n at hconfig
    rw [withUnknown, hconfig]
    rfl
  rw [← hmachines, ← hfault]

/-- **Unknown opcodes are left to the policy.** Under the policy that refuses them an opcode fails
as unknown just if it is one of the unknown opcodes; the fault names it and its address, and nothing
changes. Under the policy that leaves them out just these opcodes do nothing but move the program
counter by two, with one warning that names the opcode and its address in four digits each. Any
other opcode warns of nothing and comes to the same under both policies. -/
theorem unknown_opcodes_left_to_policy (m : Machine) (op : Opcode) :
    let strict := m.withUnknown .fail
    let lenient := m.withUnknown .skip
    let hex (w : UInt16) := String.ofList (Hex.fixed .upper 4 w.toNat)
    ((strict.execute op).fault = some (.unknownOpcode op m.pc) ↔ op.Unknown) ∧
      (∀ other pc, (strict.execute op).fault = some (.unknownOpcode other pc) →
        other = op ∧ pc = m.pc ∧ (strict.execute op).machine = strict) ∧
      (lenient.execute op = .success { lenient with pc := m.pc + 2 } ∧
          lenient.executeLog op = [.leftOut op m.pc] ↔ op.Unknown) ∧
      (Log.Entry.leftOut op m.pc).level = .warn ∧
      (Log.Entry.leftOut op m.pc).text =
        "opcode " ++ hex op.word ++ " at " ++ hex m.pc ++ " is not implemented" ∧
      strict.executeLog op = [] ∧
      (¬ op.Unknown →
        lenient.executeLog op = [] ∧
          lenient.execute op =
            ⟨(strict.execute op).machine.withUnknown .skip, (strict.execute op).fault⟩) := by
  intro strict lenient hex
  refine ⟨⟨fun h => (unknown_of_fault_execute h).1, fun h => ?_⟩, fun other pc h => ?_,
    ⟨fun h => ?_, fun h => ⟨?_, executeLog_of_unknown h rfl⟩⟩, rfl, rfl, ?_,
    fun h => ⟨executeLog_of_known h, execute_withUnknown h m .fail .skip⟩⟩
  · rw [execute_of_fail (Instruction.decode?_eq_none_iff.mpr h) rfl]
    rfl
  · obtain ⟨-, hother, hpc⟩ := unknown_of_fault_execute h
    exact ⟨hother, hpc, (strict.execute_failsCleanly op _ h).1⟩
  · by_contra hknown
    rw [executeLog_of_known hknown] at h
    cases h.2
  · exact execute_of_skip (Instruction.decode?_eq_none_iff.mpr h) rfl
  · exact if_neg fun hskip => by cases hskip.2

end Machine
end ChipEight
