import ChipEight.Machine.Bench
import ChipEight.Proofs.History

/-!
Histories on the bench. There an opcode is executed in two ways: a cycle fetches it, or the bench
gives it. An `Attempt` is either of them, and every loop of the bench is one loop of attempts over a
list that says where the opcodes come from (`Run.executeRounds_eq_attemptAll`). The history of a
machine on the bench is its attempts, and the answers they come to.
-/
namespace ChipEight

/-- Where an attempt takes its opcode from. -/
inductive Source where
  /-- From memory, at the program counter: the attempt is a cycle. -/
  | fetched
  /-- From the bench. -/
  | given (op : Opcode)

namespace Machine

/-- What an attempt comes to. -/
def attempt (m : Machine) : Source → Outcome
  | .fetched => m.step
  | .given op => m.execute op

/-- What an attempt logs. -/
def attemptLog (m : Machine) : Source → List Log.Entry
  | .fetched => m.stepLog
  | .given op => m.executeLog op

/-- The opcode an attempt executes, if it comes to one. A cycle of a machine that waits for a key
comes to none, and neither does one without an opcode at the program counter. -/
def opcode? (m : Machine) : Source → Option Opcode
  | .fetched => if m.isWaiting then none else (m.memory.fetch m.pc).toOption
  | .given op => some op

theorem attempt_of_opcode? {m : Machine} {source : Source} {op : Opcode}
    (h : m.opcode? source = some op) : m.attempt source = m.execute op := by
  cases source with
  | given op' => exact congrArg m.execute (Option.some.inj h)
  | fetched =>
    rw [opcode?] at h
    cases hw : m.isWaiting with
    | true => simp [hw] at h
    | false =>
      cases hf : m.memory.fetch m.pc with
      | error f => simp [hw, hf, Except.toOption] at h
      | ok op' =>
        obtain rfl : op' = op := by simpa [hw, hf, Except.toOption] using h
        exact step_of_ok hw hf

/-- An attempt that comes to no opcode leaves the machine as it is. -/
theorem machine_attempt_of_none {m : Machine} {source : Source} (h : m.opcode? source = none) :
    (m.attempt source).machine = m := by
  cases source with
  | given op => cases h
  | fetched =>
    show m.step.machine = m
    cases hw : m.isWaiting with
    | true => rw [step_of_isWaiting hw, Outcome.machine_success]
    | false =>
      cases hf : m.memory.fetch m.pc with
      | error f => rw [step_of_error hw hf, Outcome.machine_failure]
      | ok op => simp [opcode?, hw, hf, Except.toOption] at h

end Machine

/-! ## Loops -/

namespace Run

/-- One attempt more. -/
def attempt (r : Run) (source : Source) : Run :=
  r.record (r.machine.attemptLog source) (r.machine.attempt source)

/-- Attempts in order, to the first that fails, or behind which the machine is in a state to halt
in. -/
def attemptAll (halt : Machine → Bool) : List Source → Run → Run
  | [], r => r
  | source :: rest, r =>
      let r := r.attempt source
      if r.fault.isSome || halt r.machine then r else attemptAll halt rest r

theorem attemptAll_cons (halt : Machine → Bool) (source : Source) (rest : List Source) (r : Run) :
    attemptAll halt (source :: rest) r =
      if (r.machine.attempt source).fault.isSome || halt (r.machine.attempt source).machine then
        r.attempt source
      else attemptAll halt rest (r.attempt source) := rfl

theorem cyclesUntil_eq_attemptAll (halt : Machine → Bool) (limit : Nat) (r : Run) :
    r.cyclesUntil halt limit = attemptAll halt (.replicate limit .fetched) r := by
  induction limit generalizing r with
  | zero => rfl
  | succ limit ih =>
    rw [cyclesUntil, ih]
    rfl

/-- A list of opcodes that goes on with others. -/
theorem attemptAll_append (sources more : List Source) {r : Run} (h : r.fault = none) :
    attemptAll (fun _ => false) (sources ++ more) r =
      let r := attemptAll (fun _ => false) sources r
      if r.fault.isSome then r else attemptAll (fun _ => false) more r := by
  induction sources generalizing r with
  | nil => simp [attemptAll, h]
  | cons source rest ih =>
    cases hfault : (r.attempt source).fault with
    | some f => simp [attemptAll, hfault]
    | none => simpa [attemptAll, hfault] using ih hfault

theorem executeAll_eq_attemptAll (code : List Opcode) (r : Run) :
    executeAll code r = attemptAll (fun _ => false) (code.map .given) r := by
  induction code generalizing r with
  | nil => rfl
  | cons op rest ih =>
    rw [executeAll, List.map_cons, attemptAll, Bool.or_false, ih]
    rfl

theorem executeRounds_eq_attemptAll (code : List Opcode) (rounds : Nat) {r : Run}
    (h : r.fault = none) :
    executeRounds code rounds r =
      attemptAll (fun _ => false) (List.replicate rounds (code.map .given)).flatten r := by
  induction rounds generalizing r with
  | zero => rfl
  | succ rounds ih =>
    rw [executeRounds, List.replicate_succ, List.flatten_cons, attemptAll_append _ _ h,
      ← executeAll_eq_attemptAll]
    cases hfault : (executeAll code r).fault with
    | some f => simp [hfault]
    | none => simp [hfault, ih hfault]

end Run

/-! ## Histories -/

/-- What happens to a machine on the bench: an attempt, or the answer to a request. -/
inductive BenchMoment where
  | attempt (source : Source) (start : Machine) (outcome : Outcome) (log : List Log.Entry)
  | answer (request : BenchRequest) (answer : Answer)

namespace BenchRequest

/-- Whether a request takes the machine through attempts. -/
def goes : BenchRequest → Bool
  | host request => request.goes
  | execute .. => true
  | _ => false

/-- Where the attempts of a request take their opcodes from, as far as they go on. -/
def sources (m : Machine) : BenchRequest → List Source
  | host (.step times) => .replicate times .fetched
  | host (.run limit) => if m.isWaiting ∧ 0 < limit then [] else .replicate limit .fetched
  | execute code rounds => (List.replicate rounds (code.map .given)).flatten
  | _ => []

/-- The states that end the attempts of a request. -/
def halt : BenchRequest → Machine → Bool
  | host (.run _) => Machine.isWaiting
  | _ => fun _ => false

end BenchRequest

namespace Machine

/-- The next attempt on a machine. -/
def nextAttempt (m : Machine) (source : Source) : BenchMoment :=
  .attempt source m (m.attempt source) (m.attemptLog source)

/-- Attempts one by one, to one that fails or behind which the machine is in a state to halt in. -/
def attempts (halt : Machine → Bool) : List Source → Machine → List BenchMoment
  | [], _ => []
  | source :: rest, m =>
      m.nextAttempt source ::
        if (m.attempt source).fault.isSome || halt (m.attempt source).machine then []
        else attempts halt rest (m.attempt source).machine

/-- The attempts a request takes a machine through. -/
def attemptsOf (m : Machine) (request : BenchRequest) : List BenchMoment :=
  m.attempts request.halt (request.sources m)

/-- What happens to a machine through a list of requests on the bench. -/
def benchHistory (m : Machine) : List BenchRequest → List BenchMoment
  | [] => []
  | request :: rest =>
      m.attemptsOf request ++
        .answer request (m.serveBench request) :: (m.serveBench request).machine.benchHistory rest

theorem attemptsOf_of_not_goes {request : BenchRequest} (h : request.goes = false) (m : Machine) :
    m.attemptsOf request = [] := by
  cases request with
  | execute => cases h
  | host request =>
    cases request with
    | step | run => cases h
    | _ => rfl
  | _ => rfl

/-- A request that takes a machine through attempts leaves it where they end. -/
theorem machine_serveBench {request : BenchRequest} (h : request.goes = true) (m : Machine) :
    (m.serveBench request).machine =
      ((Run.start m).attemptAll request.halt (request.sources m)).machine := by
  cases request with
  | execute code rounds =>
    exact congrArg Run.machine (Run.executeRounds_eq_attemptAll code rounds rfl)
  | host request =>
    cases request with
    | step times =>
      exact congrArg Run.machine (Run.cyclesUntil_eq_attemptAll _ times (.start m))
    | run limit =>
      show (m.serve (.run limit)).machine = _
      rw [BenchRequest.sources]
      by_cases hwait : m.isWaiting = true ∧ 0 < limit
      · rw [serve, if_pos hwait, if_pos hwait]
        rfl
      · rw [machine_serve_run, if_neg hwait, Run.cyclesUntil_eq_attemptAll]
        rfl
    | _ => cases h
  | _ => cases h

/-! ## From moment to moment -/

/-- The moments that lead from one machine to another: an attempt leaves the machine it comes to,
and so does an answer, unless it only sums up the attempts before it. -/
inductive BenchLeads : Machine → List BenchMoment → Machine → Prop
  | stay (m : Machine) : BenchLeads m [] m
  | attempt {m n : Machine} {source : Source} {moments : List BenchMoment}
      (rest : BenchLeads (m.attempt source).machine moments n) :
      BenchLeads m (m.nextAttempt source :: moments) n
  | served {m n : Machine} {request : BenchRequest} {moments : List BenchMoment}
      (h : request.goes = false) (rest : BenchLeads (m.serveBench request).machine moments n) :
      BenchLeads m (.answer request (m.serveBench request) :: moments) n
  | summed {m n : Machine} {request : BenchRequest} {answer : Answer} {moments : List BenchMoment}
      (h : request.goes = true) (rest : BenchLeads m moments n) :
      BenchLeads m (.answer request answer :: moments) n

namespace BenchLeads

theorem append {a b c : Machine} {moments more : List BenchMoment} (h : a.BenchLeads moments b)
    (hmore : b.BenchLeads more c) : a.BenchLeads (moments ++ more) c := by
  induction h with
  | stay => exact hmore
  | attempt _ ih => exact .attempt (ih hmore)
  | served hgoes _ ih => exact .served hgoes (ih hmore)
  | summed hgoes _ ih => exact .summed hgoes (ih hmore)

/-- Between any two moments there is the machine that the first ones lead to. -/
theorem split {m n : Machine} {past rest : List BenchMoment} (h : m.BenchLeads (past ++ rest) n) :
    ∃ k, m.BenchLeads past k ∧ k.BenchLeads rest n := by
  induction past generalizing m with
  | nil => exact ⟨m, .stay m, h⟩
  | cons x past ih =>
    cases h with
    | attempt hnext =>
      obtain ⟨k, hpast, hrest⟩ := ih hnext
      exact ⟨k, .attempt hpast, hrest⟩
    | served hgoes hnext =>
      obtain ⟨k, hpast, hrest⟩ := ih hnext
      exact ⟨k, .served hgoes hpast, hrest⟩
    | summed hgoes hnext =>
      obtain ⟨k, hpast, hrest⟩ := ih hnext
      exact ⟨k, .summed hgoes hpast, hrest⟩

/-- An attempt starts from the machine that the moments before it lead to. -/
theorem to_attempt {m n start : Machine} {source : Source} {past rest : List BenchMoment}
    {outcome : Outcome} {log : List Log.Entry}
    (h : m.BenchLeads (past ++ .attempt source start outcome log :: rest) n) :
    m.BenchLeads past start ∧ outcome = start.attempt source := by
  obtain ⟨k, hpast, hrest⟩ := h.split
  cases hrest with
  | attempt _ => exact ⟨hpast, rfl⟩

theorem attemptAll (halt : Machine → Bool) (sources : List Source) (r : Run) :
    r.machine.BenchLeads (r.machine.attempts halt sources) (r.attemptAll halt sources).machine := by
  induction sources generalizing r with
  | nil => exact .stay _
  | cons source rest ih =>
    rw [attempts, Run.attemptAll_cons]
    refine .attempt ?_
    split
    · exact .stay _
    · exact ih (r.attempt source)

/-- A history leads to where its requests do. -/
theorem benchHistory (m : Machine) (requests : List BenchRequest) :
    m.BenchLeads (m.benchHistory requests) (m.afterBench requests) := by
  induction requests generalizing m with
  | nil => exact .stay m
  | cons request rest ih =>
    cases hgoes : request.goes with
    | true =>
      refine append ?_ (.summed hgoes (ih _))
      rw [machine_serveBench hgoes]
      exact attemptAll request.halt (request.sources m) (.start m)
    | false =>
      rw [Machine.benchHistory, attemptsOf_of_not_goes hgoes]
      exact .served hgoes (ih _)

end BenchLeads
end Machine
end ChipEight
