import ChipEight.Proofs.Requests

/-!
Histories. The history of a machine through a list of requests is what happens on the way: each
cycle, with the machine it starts from, what it comes to and what it logs, and each answer, after
the cycles it took. A loop of cycles is its cycles noted one after the other
(`Run.cyclesUntil_eq_foldl`), so nothing about an answer is lost in the history of its cycles.
-/
namespace ChipEight

/-- What happens to a machine: a cycle, or the answer to a request. -/
inductive Moment where
  | cycle (start : Machine) (outcome : Outcome) (log : List Log.Entry)
  | answer (request : Request) (answer : Answer)

/-- The instruction a cycle executes, if it comes to one. -/
def Moment.executed? : Moment → Option Instruction
  | cycle start .. => start.due?
  | answer .. => none

/-- The fault a cycle meets, if it meets one. -/
def Moment.fault? : Moment → Option Fault
  | cycle _ outcome _ => outcome.fault
  | answer .. => none

namespace Machine

/-- The cycle a machine goes through next. -/
def nextCycle (m : Machine) : Moment :=
  .cycle m m.step m.stepLog

/-- Up to `limit` cycles, one by one, to one that fails or behind which the machine is in a state
to halt in. -/
def cycles (halt : Machine → Bool) : Nat → Machine → List Moment
  | 0, _ => []
  | limit + 1, m =>
      m.nextCycle ::
        if m.step.fault.isSome || halt m.step.machine then []
        else cycles halt limit m.step.machine

/-- The cycles a request takes a machine through. -/
def cyclesOf (m : Machine) : Request → List Moment
  | .step times => m.cycles (fun _ => false) times
  | .run limit => if m.isWaiting ∧ 0 < limit then [] else m.cycles isWaiting limit
  | _ => []

/-- What happens to a machine through a list of requests. -/
def history (m : Machine) : List Request → List Moment
  | [] => []
  | request :: rest =>
      m.cyclesOf request ++
        .answer request (m.serve request) :: (m.serve request).machine.history rest

theorem history_append (m : Machine) (requests more : List Request) :
    m.history (requests ++ more) = m.history requests ++ (m.after requests).history more := by
  induction requests generalizing m with
  | nil => rfl
  | cons request rest ih =>
    rw [List.cons_append, history, ih, history, List.append_assoc]
    rfl

theorem cyclesOf_of_not_goes {request : Request} (h : request.goes = false) (m : Machine) :
    m.cyclesOf request = [] := by
  cases request with
  | step | run => cases h
  | _ => rfl

theorem exists_of_mem_cycles {halt : Machine → Bool} {limit : Nat} {m : Machine} {x : Moment}
    (h : x ∈ m.cycles halt limit) : ∃ n : Machine, x = n.nextCycle := by
  induction limit generalizing m with
  | zero => cases h
  | succ limit ih =>
    rw [cycles, List.mem_cons] at h
    rcases h with rfl | h
    · exact ⟨m, rfl⟩
    · split at h
      · cases h
      · exact ih h

theorem exists_of_mem_cyclesOf {m : Machine} {request : Request} {x : Moment}
    (h : x ∈ m.cyclesOf request) : ∃ n : Machine, x = n.nextCycle := by
  cases request with
  | step times => exact exists_of_mem_cycles h
  | run limit =>
    rw [cyclesOf] at h
    split at h
    · cases h
    · exact exists_of_mem_cycles h
  | _ => cases h

/-- Nothing happens but cycles, and answers to what was asked. -/
theorem exists_of_mem_history {m : Machine} {requests : List Request} {x : Moment}
    (h : x ∈ m.history requests) :
    (∃ n : Machine, x = n.nextCycle) ∨
      ∃ request ∈ requests, ∃ n : Machine, x = .answer request (n.serve request) := by
  induction requests generalizing m with
  | nil => cases h
  | cons request rest ih =>
    rw [history, List.mem_append, List.mem_cons] at h
    rcases h with h | rfl | h
    · exact .inl (exists_of_mem_cyclesOf h)
    · exact .inr ⟨request, List.mem_cons_self, m, rfl⟩
    · rcases ih h with hcycle | ⟨asked, hmem, hanswer⟩
      · exact .inl hcycle
      · exact .inr ⟨asked, List.mem_cons_of_mem request hmem, hanswer⟩

end Machine

/-! ## Loops -/

/-- Notes a cycle. -/
def Run.note (r : Run) : Moment → Run
  | .cycle _ outcome log => r.record log outcome
  | .answer .. => r

theorem Run.cyclesUntil_eq_foldl (halt : Machine → Bool) (limit : Nat) (r : Run) :
    r.cyclesUntil halt limit = (r.machine.cycles halt limit).foldl note r := by
  induction limit generalizing r with
  | zero => rfl
  | succ limit ih =>
    rw [cyclesUntil, Machine.cycles, List.foldl_cons]
    show (if r.step.fault.isSome || halt r.step.machine then r.step else _) =
      (if r.step.fault.isSome || halt r.step.machine then [] else _).foldl note r.step
    split
    · rfl
    · exact ih r.step

/-! ## The last change -/

/-- Of some changes of a value, the last one counts. -/
theorem foldl_getD_eq_getLast? {α β : Type} (change? : α → Option β) (b : β) (as : List α) :
    as.foldl (fun b a => (change? a).getD b) b = (as.filterMap change?).getLast?.getD b := by
  induction as generalizing b with
  | nil => rfl
  | cons a rest ih =>
    rw [List.foldl_cons, ih]
    cases hchange : change? a with
    | none => rw [List.filterMap_cons_none hchange, Option.getD_none]
    | some c =>
      rw [List.filterMap_cons_some hchange, List.getLast?_cons, Option.getD_some, Option.getD_some]

/-! ## From moment to moment -/

namespace Machine

/-- The moments that lead from one machine to another: a cycle leaves the machine it comes to, and
so does an answer, unless it only sums up the cycles before it. -/
inductive Leads : Machine → List Moment → Machine → Prop
  | stay (m : Machine) : Leads m [] m
  | cycle {m n : Machine} {moments : List Moment} (rest : Leads m.step.machine moments n) :
      Leads m (m.nextCycle :: moments) n
  | served {m n : Machine} {request : Request} {moments : List Moment}
      (h : request.goes = false) (rest : Leads (m.serve request).machine moments n) :
      Leads m (.answer request (m.serve request) :: moments) n
  | summed {m n : Machine} {request : Request} {answer : Answer} {moments : List Moment}
      (h : request.goes = true) (rest : Leads m moments n) :
      Leads m (.answer request answer :: moments) n

namespace Leads

theorem append {a b c : Machine} {moments more : List Moment} (h : a.Leads moments b)
    (hmore : b.Leads more c) : a.Leads (moments ++ more) c := by
  induction h with
  | stay => exact hmore
  | cycle _ ih => exact .cycle (ih hmore)
  | served hgoes _ ih => exact .served hgoes (ih hmore)
  | summed hgoes _ ih => exact .summed hgoes (ih hmore)

theorem cyclesUntil (halt : Machine → Bool) (limit : Nat) (r : Run) :
    r.machine.Leads (r.machine.cycles halt limit) (r.cyclesUntil halt limit).machine := by
  induction limit generalizing r with
  | zero => exact .stay _
  | succ limit ih =>
    rw [cycles, Run.cyclesUntil]
    refine .cycle ?_
    show Leads r.step.machine
      (if r.step.fault.isSome || halt r.step.machine then [] else _) _
    split
    · exact .stay _
    · exact ih r.step

/-- Between any two moments there is the machine that the first ones lead to. -/
theorem split {m n : Machine} {past rest : List Moment} (h : m.Leads (past ++ rest) n) :
    ∃ k, m.Leads past k ∧ k.Leads rest n := by
  induction past generalizing m with
  | nil => exact ⟨m, .stay m, h⟩
  | cons x past ih =>
    cases h with
    | cycle hnext =>
      obtain ⟨k, hpast, hrest⟩ := ih hnext
      exact ⟨k, .cycle hpast, hrest⟩
    | served hgoes hnext =>
      obtain ⟨k, hpast, hrest⟩ := ih hnext
      exact ⟨k, .served hgoes hpast, hrest⟩
    | summed hgoes hnext =>
      obtain ⟨k, hpast, hrest⟩ := ih hnext
      exact ⟨k, .summed hgoes hpast, hrest⟩

/-- A cycle starts from the machine that the moments before it lead to. -/
theorem to_cycle {m n start : Machine} {past rest : List Moment} {outcome : Outcome}
    {log : List Log.Entry} (h : m.Leads (past ++ .cycle start outcome log :: rest) n) :
    m.Leads past start ∧ outcome = start.step ∧ log = start.stepLog := by
  obtain ⟨k, hpast, hrest⟩ := h.split
  cases hrest with
  | cycle _ => exact ⟨hpast, rfl, rfl⟩

/-- The cycles of a request that takes a machine through any lead to where the request does. -/
theorem cyclesOf {request : Request} (h : request.goes = true) (m : Machine) :
    m.Leads (m.cyclesOf request) (m.serve request).machine := by
  cases request with
  | step times => exact cyclesUntil _ times (.start m)
  | run limit =>
    rw [Machine.cyclesOf]
    by_cases hwait : m.isWaiting = true ∧ 0 < limit
    · rw [if_pos hwait, serve, if_pos hwait]
      exact .stay m
    · rw [if_neg hwait, machine_serve_run]
      exact cyclesUntil _ limit (.start m)
  | _ => cases h

/-- A history leads to where its requests do. -/
theorem history (m : Machine) (requests : List Request) :
    m.Leads (m.history requests) (m.after requests) := by
  induction requests generalizing m with
  | nil => exact .stay m
  | cons request rest ih =>
    cases hgoes : request.goes with
    | true => exact (cyclesOf hgoes m).append (.summed hgoes (ih _))
    | false =>
      rw [Machine.history, cyclesOf_of_not_goes hgoes]
      exact .served hgoes (ih _)

end Leads

/-! ### Invariants -/

section
variable {I : Machine → Prop} {ok : Moment → Prop}

theorem invariant_perform (hact : ∀ {m a}, a ≠ .cycle → I m → I (m.act a)) {m : Machine} (h : I m)
    {acts : List Act} (hacts : .cycle ∉ acts) : I (m.perform acts) := by
  induction acts generalizing m with
  | nil => exact h
  | cons a rest ih =>
    simp only [List.mem_cons, not_or] at hacts
    exact ih (hact (Ne.symm hacts.1) h) hacts.2

theorem cycle_not_mem_acts {request : Request} (h : request.goes = false) :
    .cycle ∉ request.acts := by
  cases request with
  | step | run => cases h
  | _ => simp [Request.acts]

/-- What a host's deeds keep, and cycles of a certain kind, holds behind moments that have no other
cycles among them. -/
theorem Leads.invariant {m n : Machine} {moments : List Moment} (hleads : m.Leads moments n)
    (hact : ∀ {m a}, a ≠ .cycle → I m → I (m.act a))
    (hcycle : ∀ {m}, I m → ok m.nextCycle → I m.step.machine) (h : I m)
    (hok : ∀ x ∈ moments, ok x) : I n := by
  induction hleads with
  | stay => exact h
  | cycle _ ih =>
    rw [List.forall_mem_cons] at hok
    exact ih (hcycle h hok.1) hok.2
  | served hgoes _ ih =>
    rw [List.forall_mem_cons] at hok
    refine ih ?_ hok.2
    rw [machine_serve]
    exact invariant_perform hact h (cycle_not_mem_acts hgoes)
  | summed _ _ ih => exact ih h fun x hx => hok x (List.mem_cons_of_mem _ hx)

theorem invariant_after (hact : ∀ {m a}, a ≠ .cycle → I m → I (m.act a))
    (hcycle : ∀ {m}, I m → ok m.nextCycle → I m.step.machine) {m : Machine} (h : I m)
    {requests : List Request} (hok : ∀ x ∈ m.history requests, ok x) : I (m.after requests) :=
  (Leads.history m requests).invariant hact hcycle h hok

end

/-! ### Views -/

/-- Each moment says how what is seen of a machine changes. -/
structure Tells {σ : Type} (view : Machine → σ) (note : σ → Moment → σ) : Prop where
  cycle (m : Machine) : view m.step.machine = note (view m) m.nextCycle
  served (m : Machine) {request : Request} (h : request.goes = false) :
    view (m.serve request).machine = note (view m) (.answer request (m.serve request))
  summed (seen : σ) {request : Request} (h : request.goes = true) (answer : Answer) :
    note seen (.answer request answer) = seen

namespace Tells
variable {σ : Type} {view : Machine → σ} {note : σ → Moment → σ}

theorem foldl (h : Tells view note) {m n : Machine} {moments : List Moment}
    (hleads : m.Leads moments n) : view n = moments.foldl note (view m) := by
  induction hleads with
  | stay => rfl
  | cycle _ ih => rw [ih, List.foldl_cons, h.cycle]
  | served hgoes _ ih => rw [ih, List.foldl_cons, h.served _ hgoes]
  | summed hgoes _ ih => rw [ih, List.foldl_cons, h.summed _ hgoes]

/-- What is seen of a machine after a list of requests is found by going through the history. -/
theorem after (h : Tells view note) (m : Machine) (requests : List Request) :
    view (m.after requests) = (m.history requests).foldl note (view m) :=
  h.foldl (.history m requests)

end Tells
end Machine
end ChipEight
