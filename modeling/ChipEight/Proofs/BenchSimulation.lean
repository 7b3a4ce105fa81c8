import ChipEight.Proofs.BenchHistory
import ChipEight.Proofs.Simulation

/-!
Two machines on the bench, side by side. Both are asked for the same, and the attempts they make
keep them related, with the same faults and the same log, save for the attempts that are exempt.
`BenchSimulation.benchHistory` says that then their histories agree up to the first exempt attempt,
which both machines come to in related states.
-/
namespace ChipEight

section
variable (R : Machine → Machine → Prop)

/-- Moments of the same kind with results that agree. -/
inductive BenchMoment.Agree : BenchMoment → BenchMoment → Prop
  | attempt {source : Source} {m m' : Machine} {o o' : Outcome} {log log' : List Log.Entry}
      (hstart : R m m') (houtcome : o.Agree R o') (hlog : log' = log) :
      Agree (.attempt source m o log) (.attempt source m' o' log')
  | answer {request : BenchRequest} {a a' : Answer} (h : a.Agree R a') :
      Agree (.answer request a) (.answer request a')

/-- The machines part: they make an attempt of a kind that is exempt. -/
inductive BenchMoment.Part (exempt : Source → Machine → Prop) : BenchMoment → BenchMoment → Prop
  | attempt {source : Source} {m m' : Machine} (h : R m m') (he : exempt source m) :
      Part exempt (m.nextAttempt source) (m'.nextAttempt source)

end

/-- Related machines stay related, with the same results, through attempts that are not exempt and
through requests that take them through none. -/
structure BenchSimulation (R : Machine → Machine → Prop) (exempt : Source → Machine → Prop) :
    Prop where
  isWaiting {m m' : Machine} : R m m' → m'.isWaiting = m.isWaiting
  attempt {source : Source} {m m' : Machine} : R m m' → ¬ exempt source m →
    (m.attempt source).Agree R (m'.attempt source) ∧ m'.attemptLog source = m.attemptLog source
  serve {request : BenchRequest} {m m' : Machine} : R m m' → request.goes = false →
    (m.serveBench request).Agree R (m'.serveBench request)

namespace BenchSimulation
variable {R : Machine → Machine → Prop} {exempt : Source → Machine → Prop}
  (sim : BenchSimulation R exempt)
include sim

theorem attempts {halt : Machine → Bool} (hhalt : ∀ m m', R m m' → halt m' = halt m)
    (sources : List Source) {r r' : Run} (h : r.Agree R r') :
    AgreeUpTo (BenchMoment.Part R exempt) (BenchMoment.Agree R)
      ((r.attemptAll halt sources).Agree R (r'.attemptAll halt sources))
      (r.machine.attempts halt sources) (r'.machine.attempts halt sources) := by
  induction sources generalizing r r' with
  | nil => exact .ended h
  | cons source rest ih =>
    by_cases he : exempt source r.machine
    · exact .parted (.attempt h.machine he)
    · obtain ⟨hattempt, hlog⟩ := sim.attempt h.machine he
      have hnext : (r.attempt source).Agree R (r'.attempt source) := by
        refine ⟨hattempt.machine, ?_, ?_, hattempt.fault⟩
        · simp [Run.attempt, Run.record, hattempt.fault, h.cycles]
        · simp [Run.attempt, Run.record, hlog, h.log]
      have hends : ((r'.machine.attempt source).fault.isSome ||
            halt (r'.machine.attempt source).machine) =
          ((r.machine.attempt source).fault.isSome || halt (r.machine.attempt source).machine) := by
        rw [hattempt.fault, hhalt _ _ hattempt.machine]
      refine .next (.attempt h.machine hattempt hlog) ?_
      rw [Run.attemptAll_cons, Run.attemptAll_cons, hends]
      split
      · exact .ended hnext
      · exact ih hnext

/-- The attempts of a request agree as far as they go, and if they agree to their ends, so does the
answer they come to. -/
theorem attemptsOf {m m' : Machine} (h : R m m') (request : BenchRequest) :
    AgreeUpTo (BenchMoment.Part R exempt) (BenchMoment.Agree R)
      ((m.serveBench request).Agree R (m'.serveBench request))
      (m.attemptsOf request) (m'.attemptsOf request) := by
  have hstart : (Run.start m).Agree R (.start m') := ⟨h, rfl, rfl, rfl⟩
  cases request with
  | execute code rounds =>
    refine (sim.attempts (fun _ _ _ => rfl) _ hstart).imp fun hruns => ?_
    rw [Machine.serveBench, Machine.serveBench, Run.executeRounds_eq_attemptAll code rounds rfl,
      Run.executeRounds_eq_attemptAll code rounds rfl]
    exact hruns.ofSteps
  | host request =>
    cases request with
    | step times =>
      refine (sim.attempts (fun _ _ _ => rfl) _ hstart).imp fun hruns => ?_
      rw [Machine.serveBench, Machine.serveBench, Machine.serve, Machine.serve, Machine.steps,
        Machine.steps, Run.cyclesUntil_eq_attemptAll, Run.cyclesUntil_eq_attemptAll]
      exact hruns.ofSteps
    | run limit =>
      rw [Machine.attemptsOf, Machine.attemptsOf, BenchRequest.sources, BenchRequest.sources,
        Machine.serveBench, Machine.serveBench, Machine.serve, Machine.serve, sim.isWaiting h]
      split
      · exact .ended ⟨h, rfl, rfl⟩
      · refine (sim.attempts (fun _ _ => sim.isWaiting) _ hstart).imp fun hruns => ?_
        rw [← Run.cyclesUntil_eq_attemptAll, ← Run.cyclesUntil_eq_attemptAll] at hruns
        exact hruns.ofRun
    | _ => exact .ended (sim.serve h rfl)
  | _ => exact .ended (sim.serve h rfl)

/-- **Histories on the bench agree up to the first exempt attempt.** -/
theorem benchHistory {m m' : Machine} (h : R m m') (requests : List BenchRequest) :
    AgreeUpTo (BenchMoment.Part R exempt) (BenchMoment.Agree R)
      (R (m.afterBench requests) (m'.afterBench requests))
      (m.benchHistory requests) (m'.benchHistory requests) := by
  induction requests generalizing m m' with
  | nil => exact .ended h
  | cons request rest ih =>
    exact (sim.attemptsOf h request).append fun hanswer _ =>
      .next (.answer hanswer) (ih hanswer.machine)

end BenchSimulation
end ChipEight
