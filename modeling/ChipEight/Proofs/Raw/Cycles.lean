import ChipEight.Proofs.Raw.Operations

/-!
Cycles of a raw machine. On a machine whose call stack is not overfull an opcode, a cycle and a loop
of either do not trap and come to what they come to there.
-/
namespace ChipEight

namespace Raw

/-! ## Cycles -/

/-- An outcome written down in bare words, with its fault. -/
def ofEnd (o : Outcome) : Raw × Option Fault :=
  (ofMachine o.machine, o.fault)

section
variable {m : Machine}

theorem execute?_eq (h : m.StackFits) (op : Opcode) :
    (ofMachine m).execute? op = some (ofEnd (m.execute op)) := by
  unfold execute? Machine.execute
  cases hd : Instruction.decode? op with
  | none =>
    simp only [show (ofMachine m).config = m.config from rfl]
    cases m.config.unknown <;> rfl
  | some i =>
    -- The program counter moves from where the operation left it, which is where it was.
    have hpc : Part.pc.Same m (i.effect m).machine :=
      i.effect_same m (by cases i <;> simp [Instruction.touches])
    have htarget := i.target_flow m
    dsimp only
    rw [operate?_eq h (Instruction.carries_of_decode? hd), Instruction.execute]
    cases hf : (i.effect m).fault with
    | none =>
      rw [Outcome.onSuccess_of_none hf, ← htarget, ← show (i.effect m).machine.pc = m.pc from hpc]
      simp only [ofOutcome, hf]
      rfl
    | some f =>
      rw [Outcome.onSuccess_of_some hf]
      simp only [ofOutcome, ofEnd, hf]
      rfl

theorem step?_eq (h : m.StackFits) : (ofMachine m).step? = some (ofEnd m.step) := by
  have hwaiting : (ofMachine m).waiting.isSome = m.isWaiting := by
    simp [ofMachine, Machine.isWaiting]
  rw [step?, Machine.step, hwaiting]
  cases m.isWaiting with
  | true => rfl
  | false =>
    have hfetch := fetch?_eq m m.pc
    rw [show (ofMachine m).pc = m.pc from rfl, hfetch]
    cases m.memory.fetch m.pc with
    | ok op => exact execute?_eq h op
    | error f => rfl

end

/-! ## Loops -/

/-- A raw machine's loop comes to what a run comes to, and the run keeps the stack's bound. -/
def Follows (found : Option (Raw × Option Fault)) (r : Run) : Prop :=
  found = some (ofMachine r.machine, r.fault) ∧ r.machine.StackFits

theorem follows_cyclesUntil {halt? : Raw → Bool} {halt : Machine → Bool}
    (hhalt : ∀ m, halt? (ofMachine m) = halt m) (limit : Nat) {r : Run}
    (h : r.machine.StackFits) (hf : r.fault = none) :
    Follows (cyclesUntil? halt? limit (ofMachine r.machine)) (r.cyclesUntil halt limit) := by
  induction limit generalizing r with
  | zero => exact ⟨by rw [cyclesUntil?, Run.cyclesUntil, hf], h⟩
  | succ limit ih =>
    have hstep : r.step.machine.StackFits := h.step
    rw [cyclesUntil?, step?_eq h, Option.bind_eq_bind, Option.bind_some, Run.cyclesUntil]
    show Follows (if r.step.fault.isSome || halt? (ofMachine r.step.machine) then
      some (ofMachine r.step.machine, r.step.fault) else
      cyclesUntil? halt? limit (ofMachine r.step.machine)) _
    rw [hhalt]
    split
    · exact ⟨rfl, hstep⟩
    · rename_i hgo
      exact ih hstep (by cases hr : r.step.fault <;> simp_all)

theorem follows_executeAll (code : List Opcode) {r : Run} (h : r.machine.StackFits)
    (hf : r.fault = none) :
    Follows (executeAll? code (ofMachine r.machine)) (Run.executeAll code r) := by
  induction code generalizing r with
  | nil => exact ⟨by rw [executeAll?, Run.executeAll, hf], h⟩
  | cons op rest ih =>
    have hexecute : (r.execute op).machine.StackFits := h.execute op
    rw [executeAll?, execute?_eq h, Option.bind_eq_bind, Option.bind_some, Run.executeAll]
    show Follows (if (r.execute op).fault.isSome then
      some (ofMachine (r.execute op).machine, (r.execute op).fault) else
      executeAll? rest (ofMachine (r.execute op).machine)) _
    split
    · exact ⟨rfl, hexecute⟩
    · rename_i hgo
      exact ih hexecute (by simpa using hgo)

theorem follows_executeRounds (code : List Opcode) (rounds : Nat) {r : Run}
    (h : r.machine.StackFits) (hf : r.fault = none) :
    Follows (executeRounds? code rounds (ofMachine r.machine))
      (Run.executeRounds code rounds r) := by
  induction rounds generalizing r with
  | zero => exact ⟨by rw [executeRounds?, Run.executeRounds, hf], h⟩
  | succ rounds ih =>
    obtain ⟨hall, hfits⟩ := follows_executeAll code h hf
    rw [executeRounds?, hall, Option.bind_eq_bind, Option.bind_some, Run.executeRounds]
    dsimp only
    split
    · exact ⟨rfl, hfits⟩
    · rename_i hgo
      exact ih hfits (by simpa using hgo)

end Raw
end ChipEight
