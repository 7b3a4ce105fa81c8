import ChipEight.Proofs.Footprint

/-!
The bound of the call stack. Its depth is a plain number; that it never passes the number of slots
is an invariant, kept by the one instruction that could break it and left alone by all others.
-/
namespace ChipEight

namespace Machine

/-- No more slots are in use than there are. -/
def StackFits (m : Machine) : Prop :=
  m.calls.depth ≤ CallStack.capacity

theorem StackFits.of_same {m m' : Machine} (h : m.StackFits) (hsame : Part.calls.Same m m') :
    m'.StackFits := by
  rw [StackFits, show m'.calls = m.calls from hsame]
  exact h

theorem StackFits.effect {m : Machine} (h : m.StackFits) (i : Instruction) :
    (i.effect m).machine.StackFits := by
  by_cases hcalls : Part.calls ∈ i.touches
  · cases i <;> simp [Instruction.touches] at hcalls
    case leave =>
      simp only [Instruction.effect]
      split
      · rename_i calls hpop
        obtain ⟨-, rfl⟩ := CallStack.pop?_eq_some_iff.mp hpop
        exact Nat.le_trans (Nat.sub_le _ _) h
      · exact h
    case call target =>
      simp only [Instruction.effect]
      split
      · rename_i calls hpush
        obtain ⟨hlt, rfl⟩ := CallStack.push?_eq_some_iff.mp hpush
        exact hlt
      · exact h
  · exact h.of_same (i.effect_same m hcalls)

theorem StackFits.execute {m : Machine} (h : m.StackFits) (op : Opcode) :
    (m.execute op).machine.StackFits := by
  unfold Machine.execute
  cases Instruction.decode? op with
  | none => cases m.config.unknown <;> exact h
  | some i =>
    dsimp only [Instruction.execute]
    cases hf : (i.effect m).fault with
    | none =>
      rw [Outcome.onSuccess_of_none hf]
      exact h.effect i
    | some f =>
      rw [Outcome.onSuccess_of_some hf]
      exact h.effect i

theorem StackFits.step {m : Machine} (h : m.StackFits) : m.step.machine.StackFits := by
  unfold Machine.step
  split
  · exact h
  · cases m.memory.fetch m.pc with
    | ok op => exact h.execute op
    | error f => exact h

end Machine

end ChipEight
