import ChipEight.Proofs.History
import Mathlib.Data.List.Forall2

/-!
Two machines side by side. A `Simulation` relates machines that a cycle keeps related, with the same
fault and the same log, save for the cycles it exempts. Each machine has its own host: some requests
are heard, and these both hosts make in the same order; the rest either of them makes as it likes,
since they keep the machines related. `Simulation.history` says that then the two histories agree,
moment by moment, up to the first exempt cycle, which both machines come to in related states.
-/
namespace ChipEight

/-! ## Lists that agree up to some place -/

/-- Two lists agree element by element, up to two elements at which they part; or to their ends,
where `last` holds. -/
inductive AgreeUpTo {α β : Type} (parts agrees : α → β → Prop) (last : Prop) :
    List α → List β → Prop
  | ended (h : last) : AgreeUpTo parts agrees last [] []
  | next {a : α} {b : β} {as : List α} {bs : List β} (h : agrees a b)
      (rest : AgreeUpTo parts agrees last as bs) : AgreeUpTo parts agrees last (a :: as) (b :: bs)
  | parted {a : α} {b : β} {as : List α} {bs : List β} (h : parts a b) :
      AgreeUpTo parts agrees last (a :: as) (b :: bs)

namespace AgreeUpTo
variable {α β : Type} {parts agrees : α → β → Prop} {last last' : Prop} {as as' : List α}
  {bs bs' : List β}

/-- What follows has to agree only if the lists have not parted before. -/
theorem append (h : AgreeUpTo parts agrees last as bs)
    (hmore : last → List.Forall₂ agrees as bs → AgreeUpTo parts agrees last' as' bs') :
    AgreeUpTo parts agrees last' (as ++ as') (bs ++ bs') := by
  induction h with
  | ended hlast => exact hmore hlast .nil
  | next hab _ ih => exact .next hab (ih fun hlast hrest => hmore hlast (.cons hab hrest))
  | parted hparts => exact .parted hparts

theorem imp (h : AgreeUpTo parts agrees last as bs) (hlast : last → last') :
    AgreeUpTo parts agrees last' as bs := by
  induction h with
  | ended h => exact .ended (hlast h)
  | next hab _ ih => exact .next hab ih
  | parted hparts => exact .parted hparts

/-- Lists that nowhere part agree to their ends. -/
theorem toEnd (h : AgreeUpTo parts agrees last as bs) (hparts : ∀ a ∈ as, ∀ b, ¬ parts a b) :
    List.Forall₂ agrees as bs ∧ last := by
  induction h with
  | ended hlast => exact ⟨.nil, hlast⟩
  | next hab _ ih =>
    rw [List.forall_mem_cons] at hparts
    obtain ⟨hrest, hlast⟩ := ih hparts.2
    exact ⟨.cons hab hrest, hlast⟩
  | parted h => exact absurd h (hparts _ List.mem_cons_self _)

end AgreeUpTo

/-! ## Results that agree -/

section
variable (R : Machine → Machine → Prop)

/-- The same fault or none, and related machines. -/
structure Outcome.Agree (o o' : Outcome) : Prop where
  machine : R o.machine o'.machine
  fault : o'.fault = o.fault

namespace Outcome.Agree
variable {R} {m m' : Machine}

theorem success (h : R m m') : (success m).Agree R (.success m') :=
  ⟨h, rfl⟩

theorem failure {f : Fault} (h : R m m') : (failure m f).Agree R (.failure m' f) :=
  ⟨h, rfl⟩

theorem check {α : Type} {found found' : Except Fault α} {go go' : α → Outcome}
    (hfound : found' = found) (h : R m m')
    (hgo : ∀ a, found = .ok a → (go a).Agree R (go' a)) :
    (check m found go).Agree R (.check m' found' go') := by
  rw [hfound]
  cases found with
  | ok a => exact hgo a rfl
  | error f => exact .failure h

theorem onSuccess {o o' : Outcome} {f f' : Machine → Machine} (h : o.Agree R o')
    (hf : ∀ n n', R n n' → R (f n) (f' n')) : (o.onSuccess f).Agree R (o'.onSuccess f') := by
  rcases o with ⟨n, fault⟩
  rcases o' with ⟨n', fault'⟩
  obtain ⟨hn, hfault⟩ := h
  obtain rfl : fault' = fault := hfault
  cases fault' with
  | none => exact ⟨hf n n' hn, rfl⟩
  | some f => exact ⟨hn, rfl⟩

end Outcome.Agree

/-- The same reply and log, and related machines. -/
structure Answer.Agree (a a' : Answer) : Prop where
  machine : R a.machine a'.machine
  reply : a'.reply = a.reply
  log : a'.log = a.log

namespace Answer.Agree
variable {R} {m m' : Machine}

theorem tell (h : R m m') (reply : Reply) : (tell m reply).Agree R (.tell m' reply) :=
  ⟨h, rfl, rfl⟩

theorem look {α : Type} {found found' : Except Fault α} (h : R m m') (hfound : found' = found)
    (reply : α → Reply) : (look m reply found).Agree R (.look m' reply found') := by
  rw [hfound]
  cases found <;> exact .tell h _

theorem ofOutcome {o o' : Outcome} (h : o.Agree R o') (log : List Log.Entry) :
    (ofOutcome o log).Agree R (.ofOutcome o' log) := by
  refine ⟨?_, ?_, ?_⟩
  · rw [Answer.machine_ofOutcome, Answer.machine_ofOutcome]
    exact h.machine
  · rw [Answer.ofOutcome, Answer.ofOutcome, h.fault]
    cases o.fault <;> rfl
  · rw [Answer.ofOutcome, Answer.ofOutcome, h.fault]
    cases o.fault <;> rfl

end Answer.Agree

/-- Runs that have come equally far. -/
structure Run.Agree (r r' : Run) : Prop where
  machine : R r.machine r'.machine
  cycles : r'.cycles = r.cycles
  log : r'.log = r.log
  fault : r'.fault = r.fault

/-- Moments of the same kind with results that agree. -/
inductive Moment.Agree : Moment → Moment → Prop
  | cycle {m m' : Machine} {o o' : Outcome} {log log' : List Log.Entry} (hstart : R m m')
      (houtcome : o.Agree R o') (hlog : log' = log) : Agree (.cycle m o log) (.cycle m' o' log')
  | answer {request : Request} {a a' : Answer} (h : a.Agree R a') :
      Agree (.answer request a) (.answer request a')

/-- The machines part: they go through a cycle of a kind that is exempt. -/
inductive Moment.Part (exempt : Machine → Prop) : Moment → Moment → Prop
  | cycle {m m' : Machine} (h : R m m') (he : exempt m) : Part exempt m.nextCycle m'.nextCycle

end

/-- Whether a moment is a cycle, or the answer to a request of the kind that is heard. -/
def Moment.isHeard (heard : Request → Bool) : Moment → Bool
  | cycle .. => true
  | answer request _ => heard request

/-- Related machines stay related, with the same results, through cycles that are not exempt and
requests that are heard; a request that is not heard keeps its machine related to the other. -/
structure Simulation (R : Machine → Machine → Prop) (exempt : Machine → Prop)
    (heard : Request → Bool) : Prop where
  goes {request : Request} : request.goes = true → heard request = true
  isWaiting {m m' : Machine} : R m m' → m'.isWaiting = m.isWaiting
  step {m m' : Machine} : R m m' → ¬ exempt m →
    m.step.Agree R m'.step ∧ m'.stepLog = m.stepLog
  serve {m m' : Machine} {request : Request} : R m m' → heard request = true →
    request.goes = false → (m.serve request).Agree R (m'.serve request)
  unheard_left {m m' : Machine} {request : Request} : R m m' → heard request = false →
    R (m.serve request).machine m'
  unheard_right {m m' : Machine} {request : Request} : R m m' → heard request = false →
    R m (m'.serve request).machine

/-! ## Histories with unheard requests left out -/

namespace Machine

theorem isHeard_of_mem_cyclesOf (heard : Request → Bool) {m : Machine} {request : Request}
    {x : Moment} (h : x ∈ m.cyclesOf request) : x.isHeard heard = true := by
  obtain ⟨n, rfl⟩ := exists_of_mem_cyclesOf h
  rfl

/-- What is heard of a history. -/
def heardHistory (heard : Request → Bool) (m : Machine) (requests : List Request) : List Moment :=
  (m.history requests).filter (Moment.isHeard heard)

theorem heardHistory_of_all (m : Machine) (requests : List Request) :
    m.heardHistory (fun _ => true) requests = m.history requests := by
  refine List.filter_eq_self.mpr fun moment _ => ?_
  cases moment <;> rfl

variable {heard : Request → Bool} {request : Request}

theorem heardHistory_cons_heard (h : heard request = true) (m : Machine) (rest : List Request) :
    m.heardHistory heard (request :: rest) =
      m.cyclesOf request ++ .answer request (m.serve request) ::
        (m.serve request).machine.heardHistory heard rest := by
  have hcycles : (m.cyclesOf request).filter (Moment.isHeard heard) = m.cyclesOf request :=
    List.filter_eq_self.mpr fun _ hx => isHeard_of_mem_cyclesOf heard hx
  have hanswer : Moment.isHeard heard (.answer request (m.serve request)) = true := h
  rw [heardHistory, history, List.filter_append, List.filter_cons_of_pos hanswer, hcycles]
  rfl

theorem heardHistory_cons_unheard (h : heard request = false) (hgoes : request.goes = false)
    (m : Machine) (rest : List Request) :
    m.heardHistory heard (request :: rest) = (m.serve request).machine.heardHistory heard rest := by
  have hanswer : ¬ Moment.isHeard heard (.answer request (m.serve request)) = true := by
    simp [Moment.isHeard, h]
  rw [heardHistory, history, cyclesOf_of_not_goes hgoes, List.nil_append,
    List.filter_cons_of_neg hanswer]
  rfl

end Machine

/-! ## Simulations -/

namespace Run.Agree
variable {R : Machine → Machine → Prop}

theorem foldl {moments moments' : List Moment}
    (h : List.Forall₂ (Moment.Agree R) moments moments') {r r' : Run} (hr : r.Agree R r') :
    (moments.foldl note r).Agree R (moments'.foldl note r') := by
  induction h generalizing r r' with
  | nil => exact hr
  | cons hx _ ih =>
    refine ih ?_
    cases hx with
    | answer => exact hr
    | cycle hstart houtcome hlog =>
      refine ⟨houtcome.machine, ?_, ?_, houtcome.fault⟩
      · simp [note, record, houtcome.fault, hr.cycles]
      · simp [note, record, hlog, hr.log]

theorem cyclesUntil {m m' : Machine} (h : R m m') {halt : Machine → Bool} {limit : Nat}
    (hcycles : List.Forall₂ (Moment.Agree R) (m.cycles halt limit) (m'.cycles halt limit)) :
    ((start m).cyclesUntil halt limit).Agree R ((start m').cyclesUntil halt limit) := by
  rw [cyclesUntil_eq_foldl, cyclesUntil_eq_foldl]
  exact foldl hcycles ⟨h, rfl, rfl, rfl⟩

theorem ofSteps {r r' : Run} (h : r.Agree R r') :
    (Answer.ofSteps r).Agree R (Answer.ofSteps r') :=
  ⟨h.machine, by rw [Answer.ofSteps, h.cycles, h.fault]; rfl, congrArg Array.toList h.log⟩

theorem ofRun {r r' : Run} (h : r.Agree R r') :
    (Answer.ofRun r.close).Agree R (Answer.ofRun r'.close) := by
  rw [close, close, h.fault]
  cases hf : r.fault with
  | some f =>
    refine ⟨h.machine, ?_, ?_⟩
    · simp [Answer.ofRun, h.fault, hf]
    · simp [Answer.ofRun, h.log]
  | none =>
    refine ⟨h.machine, ?_, ?_⟩
    · simp [Answer.ofRun, h.cycles]
    · simp [Answer.ofRun, h.log, h.cycles]

end Run.Agree

namespace Simulation
variable {R : Machine → Machine → Prop} {exempt : Machine → Prop} {heard : Request → Bool}
  (sim : Simulation R exempt heard)
include sim

theorem not_goes {request : Request} (h : heard request = false) : request.goes = false := by
  cases hgoes : request.goes with
  | false => rfl
  | true => rw [sim.goes hgoes] at h; cases h

theorem cycles {halt : Machine → Bool} (hhalt : ∀ m m', R m m' → halt m' = halt m) (limit : Nat)
    {m m' : Machine} (h : R m m') :
    AgreeUpTo (Moment.Part R exempt) (Moment.Agree R) True (m.cycles halt limit)
      (m'.cycles halt limit) := by
  induction limit generalizing m m' with
  | zero => exact .ended trivial
  | succ limit ih =>
    by_cases he : exempt m
    · exact .parted (.cycle h he)
    · obtain ⟨hstep, hlog⟩ := sim.step h he
      refine .next (.cycle h hstep hlog) ?_
      rw [hstep.fault, hhalt _ _ hstep.machine]
      split
      · exact .ended trivial
      · exact ih hstep.machine

theorem cyclesOf {m m' : Machine} (h : R m m') (request : Request) :
    AgreeUpTo (Moment.Part R exempt) (Moment.Agree R) True (m.cyclesOf request)
      (m'.cyclesOf request) := by
  cases request with
  | step times => exact sim.cycles (fun _ _ _ => rfl) times h
  | run limit =>
    rw [Machine.cyclesOf, Machine.cyclesOf, sim.isWaiting h]
    split
    · exact .ended trivial
    · exact sim.cycles (fun _ _ => sim.isWaiting) limit h
  | _ => exact .ended trivial

/-- If its cycles agree, so does the answer to a request. -/
theorem answer {m m' : Machine} (h : R m m') {request : Request} (hheard : heard request = true)
    (hcycles : List.Forall₂ (Moment.Agree R) (m.cyclesOf request) (m'.cyclesOf request)) :
    (m.serve request).Agree R (m'.serve request) := by
  cases hgoes : request.goes with
  | false => exact sim.serve h hheard hgoes
  | true =>
    cases request with
    | step times => exact (Run.Agree.cyclesUntil h hcycles).ofSteps
    | run limit =>
      rw [Machine.cyclesOf, Machine.cyclesOf, sim.isWaiting h] at hcycles
      rw [Machine.serve, Machine.serve, sim.isWaiting h]
      split
      · exact ⟨h, rfl, rfl⟩
      · rename_i hgoing
        rw [if_neg hgoing, if_neg hgoing] at hcycles
        exact (Run.Agree.cyclesUntil h hcycles).ofRun
    | _ => cases hgoes

/-- **Histories agree up to the first exempt cycle.** -/
theorem history {m m' : Machine} (h : R m m') {one other : List Request}
    (hsame : one.filter heard = other.filter heard) :
    AgreeUpTo (Moment.Part R exempt) (Moment.Agree R) (R (m.after one) (m'.after other))
      (m.heardHistory heard one) (m'.heardHistory heard other) := by
  induction one generalizing m m' other with
  | nil =>
    -- Nothing is left that both hosts ask for.
    induction other generalizing m' with
    | nil => exact .ended h
    | cons request rest ih =>
      cases hheard : heard request with
      | true => simp [hheard] at hsame
      | false =>
        rw [Machine.heardHistory_cons_unheard hheard (sim.not_goes hheard)]
        exact ih (sim.unheard_right h hheard) (by simpa [hheard] using hsame)
  | cons request rest ih =>
    cases hheard : heard request with
    | false =>
      rw [Machine.heardHistory_cons_unheard hheard (sim.not_goes hheard)]
      exact ih (sim.unheard_left h hheard) (by simpa [hheard] using hsame)
    | true =>
      -- The other host may ask for something of its own before it comes to the same request.
      induction other generalizing m' with
      | nil => simp [hheard] at hsame
      | cons request' rest' ih' =>
        cases hheard' : heard request' with
        | false =>
          rw [Machine.heardHistory_cons_unheard hheard' (sim.not_goes hheard')]
          exact ih' (sim.unheard_right h hheard') (by simpa [hheard'] using hsame)
        | true =>
          rw [List.filter_cons_of_pos hheard, List.filter_cons_of_pos hheard',
            List.cons.injEq] at hsame
          obtain ⟨rfl, hrest⟩ := hsame
          rw [Machine.heardHistory_cons_heard hheard, Machine.heardHistory_cons_heard hheard]
          refine (sim.cyclesOf h request).append fun _ hcycles => ?_
          have hanswer := sim.answer h hheard hcycles
          exact .next (.answer hanswer) (ih hanswer.machine hrest)

end Simulation
end ChipEight
