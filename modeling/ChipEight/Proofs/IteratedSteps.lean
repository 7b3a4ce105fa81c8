import ChipEight.Proofs.Atomicity
import ChipEight.Proofs.Cycle
import ChipEight.Machine.Request
import Mathlib.Data.Nat.Find
import Mathlib.Logic.Function.Iterate

/-!
Runs as iterated cycles. A run looks before each cycle whether it is to stop, and ends with the
first look that finds so or with the first cycle that fails. Either way it is a number of cycles and
nothing else (`Run.cyclesUntil_eq_iterate`), so its machine, its count and its log are those of the
single cycles.
-/
namespace ChipEight

namespace Machine

/-- The machine after a number of cycles. -/
def stepped (m : Machine) (n : Nat) : Machine :=
  (fun m => m.step.machine)^[n] m

/-- What a number of cycles logs. -/
def steppedLog (m : Machine) (n : Nat) : List Log.Entry :=
  (List.range n).flatMap fun j => (m.stepped j).stepLog

theorem stepped_succ (m : Machine) (n : Nat) : m.stepped (n + 1) = (m.stepped n).step.machine :=
  Function.iterate_succ_apply' _ n m

theorem steppedLog_succ (m : Machine) (n : Nat) :
    m.steppedLog (n + 1) = m.steppedLog n ++ (m.stepped n).stepLog := by
  simp [steppedLog, List.range_succ]

end Machine

/-! ## Loops of cycles -/

namespace Run

theorem machine_iterate_step (m : Machine) (n : Nat) :
    (step^[n] (start m)).machine = m.stepped n := by
  induction n with
  | zero => rfl
  | succ n ih =>
    rw [Function.iterate_succ_apply', Machine.stepped_succ, ← ih]
    rfl

theorem log_iterate_step (m : Machine) (n : Nat) :
    (step^[n] (start m)).log.toList = m.steppedLog n := by
  induction n with
  | zero => rfl
  | succ n ih =>
    rw [Function.iterate_succ_apply', Machine.steppedLog_succ, ← ih, ← machine_iterate_step]
    exact Array.toList_appendList ..

theorem fault_iterate_step (m : Machine) (n : Nat) :
    (step^[n + 1] (start m)).fault = (m.stepped n).step.fault := by
  rw [Function.iterate_succ_apply', ← machine_iterate_step]
  rfl

theorem cycles_iterate_step {m : Machine} {n : Nat}
    (hok : ∀ j < n, (m.stepped j).step.fault = none) : (step^[n] (start m)).cycles = n := by
  induction n with
  | zero => rfl
  | succ n ih =>
    have hlast := hok n (Nat.lt_succ_self n)
    rw [Function.iterate_succ_apply', step, record, machine_iterate_step, hlast,
      ih fun j hj => hok j (Nat.lt_succ_of_lt hj)]
    rfl

/-- A loop of cycles is the cycles up to the first that is to be its last. -/
theorem cyclesUntil_eq_iterate {halt : Machine → Bool} {limit n : Nat} {r : Run}
    (hlimit : n < limit)
    (hgoing : ∀ j < n, (step^[j + 1] r).fault = none ∧ halt (step^[j + 1] r).machine = false)
    (hend : (step^[n + 1] r).fault ≠ none ∨ halt (step^[n + 1] r).machine = true ∨
      limit = n + 1) :
    r.cyclesUntil halt limit = step^[n + 1] r := by
  induction n generalizing limit r with
  | zero =>
    obtain ⟨limit, rfl⟩ : ∃ rest, limit = rest + 1 := ⟨limit - 1, by omega⟩
    rw [cyclesUntil]
    split
    · rfl
    · rename_i hgoes
      rw [Bool.or_eq_true, not_or, Option.isSome_iff_ne_none, not_not] at hgoes
      rcases hend with hfault | hhalt | hlast
      · exact absurd hgoes.1 hfault
      · exact absurd hhalt hgoes.2
      · obtain rfl : limit = 0 := by omega
        rfl
  | succ n ih =>
    obtain ⟨limit, rfl⟩ : ∃ rest, limit = rest + 1 := ⟨limit - 1, by omega⟩
    obtain ⟨hfault, hhalt⟩ := hgoing 0 (by omega)
    rw [cyclesUntil]
    have hnext : r.step.fault = none ∧ halt r.step.machine = false := ⟨hfault, hhalt⟩
    simp only [hnext.1, hnext.2, Option.isSome_none, Bool.or_self, Bool.false_eq_true, if_false]
    exact ih (by omega) (fun j hj => hgoing (j + 1) (by omega)) (by simpa using hend)

/-- Cycles with a flag that is looked at before each of them, given what the looks find. There is no
result if none of them finds the flag set. -/
def untilSet : List Bool → Run → Option Run
  | [], _ => none
  | true :: _, r => some r
  | false :: looks, r =>
      let r := r.step
      if r.fault.isSome then some r else untilSet looks r

theorem untilSet_eq (k : Nat) (looks : List Bool) (r : Run) :
    untilSet (List.replicate k false ++ true :: looks) r =
      some (r.cyclesUntil (fun _ => false) k) := by
  induction k generalizing r with
  | zero => rfl
  | succ k ih =>
    rw [List.replicate_succ, List.cons_append, untilSet, cyclesUntil, ih]
    simp only [Bool.or_false]
    split <;> rfl

end Run

namespace Machine

/-! ## Where a run ends -/

/-- Whether a run that has come through so many cycles finds that it is to stop. -/
def StopSeen (m : Machine) (halt : Machine → Bool) (limit n : Nat) : Prop :=
  n = limit ∨ 0 < n ∧ halt (m.stepped n) = true

instance (m : Machine) (halt : Machine → Bool) (limit n : Nat) :
    Decidable (m.StopSeen halt limit n) :=
  inferInstanceAs (Decidable (_ ∨ _))

section
variable {m : Machine} {halt : Machine → Bool} {limit k : Nat}

theorem le_of_first_stop (hfirst : ∀ j < k, ¬ m.StopSeen halt limit j) : k ≤ limit := by
  by_contra hlt
  exact hfirst limit (Nat.lt_of_not_le hlt) (.inl rfl)

theorem halt_eq_false_of_first_stop (hfirst : ∀ j < k, ¬ m.StopSeen halt limit j) {j : Nat}
    (hpos : 0 < j) (hj : j < k) : halt (m.stepped j) = false := by
  rw [Bool.eq_false_iff]
  exact fun hhalt => hfirst j hj (.inr ⟨hpos, hhalt⟩)

/-- A run of cycles that all succeed ends where it is first to stop. -/
theorem cyclesUntil_of_ok (hstop : m.StopSeen halt limit k)
    (hfirst : ∀ j < k, ¬ m.StopSeen halt limit j)
    (hok : ∀ j < k, (m.stepped j).step.fault = none) :
    (Run.start m).cyclesUntil halt limit = Run.step^[k] (.start m) := by
  have hle := le_of_first_stop hfirst
  cases k with
  | zero =>
    obtain rfl : limit = 0 := by
      rcases hstop with hlimit | ⟨hpos, -⟩
      · exact hlimit.symm
      · cases hpos
    rfl
  | succ n =>
    refine Run.cyclesUntil_eq_iterate hle (fun j hj => ?_) (.inr ?_)
    · rw [Run.fault_iterate_step, Run.machine_iterate_step]
      exact ⟨hok j (by omega), halt_eq_false_of_first_stop hfirst (by omega) (by omega)⟩
    · rw [Run.machine_iterate_step]
      rcases hstop with hlimit | ⟨-, hhalt⟩
      · exact .inr hlimit.symm
      · exact .inl hhalt

/-- A run ends with the first cycle that fails before it is to stop. -/
theorem cyclesUntil_of_fault (hfirst : ∀ j < k, ¬ m.StopSeen halt limit j) {j : Nat} (hj : j < k)
    (hok : ∀ i < j, (m.stepped i).step.fault = none) (hfault : (m.stepped j).step.fault ≠ none) :
    (Run.start m).cyclesUntil halt limit = Run.step^[j + 1] (.start m) := by
  have hle := le_of_first_stop hfirst
  refine Run.cyclesUntil_eq_iterate (by omega) (fun i hi => ?_) (.inl ?_)
  · rw [Run.fault_iterate_step, Run.machine_iterate_step]
    exact ⟨hok i hi, halt_eq_false_of_first_stop hfirst (by omega) (by omega)⟩
  · rw [Run.fault_iterate_step]
    exact hfault

/-- It does not matter how a run finds out that it is to stop, only when. -/
theorem cyclesUntil_eq_of_first_stop (hstop : m.StopSeen halt limit k)
    (hfirst : ∀ j < k, ¬ m.StopSeen halt limit j) :
    (Run.start m).cyclesUntil halt limit = (Run.start m).cyclesUntil (fun _ => false) k := by
  have hstop' : m.StopSeen (fun _ => false) k k := .inl rfl
  have hfirst' : ∀ j < k, ¬ m.StopSeen (fun _ => false) k j := by
    rintro j hj (rfl | ⟨-, hhalt⟩)
    · exact Nat.lt_irrefl _ hj
    · cases hhalt
  by_cases hok : ∀ j < k, (m.stepped j).step.fault = none
  · rw [cyclesUntil_of_ok hstop hfirst hok, cyclesUntil_of_ok hstop' hfirst' hok]
  · have hfails : ∃ j, j < k ∧ (m.stepped j).step.fault ≠ none := by
      by_contra hno
      exact hok fun j hj => by_contra fun hfault => hno ⟨j, hj, hfault⟩
    -- The first cycle that fails ends both.
    classical
    obtain ⟨hj, hfault⟩ := Nat.find_spec hfails
    have hbefore : ∀ i < Nat.find hfails, (m.stepped i).step.fault = none := by
      intro i hi
      by_contra hfault
      exact Nat.find_min hfails hi ⟨by omega, hfault⟩
    rw [cyclesUntil_of_fault hfirst hj hbefore hfault,
      cyclesUntil_of_fault hfirst' hj hbefore hfault]

end

theorem stopped_not_mem_steppedLog (m : Machine) (n count : Nat) :
    .stopped count ∉ m.steppedLog n := by
  rw [steppedLog, List.mem_flatMap]
  rintro ⟨j, -, hmem⟩
  obtain ⟨op, h | h⟩ := exists_of_mem_stepLog hmem <;> cases h

/-! ## Waiting -/

/-- A machine that waits for a key goes through cycles that change nothing and log nothing. -/
theorem stepped_of_isWaiting {m : Machine} {i : Nat} (h : (m.stepped i).isWaiting = true)
    (n : Nat) : m.stepped (i + n) = m.stepped i ∧ m.steppedLog (i + n) = m.steppedLog i := by
  induction n with
  | zero => exact ⟨rfl, rfl⟩
  | succ n ih =>
    obtain ⟨hmachine, hlog⟩ := ih
    constructor
    · rw [← Nat.add_assoc, stepped_succ, hmachine, step_of_isWaiting h]
      rfl
    · rw [← Nat.add_assoc, steppedLog_succ, hmachine, hlog, stepLog, if_pos h, List.append_nil]

/-! ## Runs -/

theorem ofRun_close_of_ok {m : Machine} {k : Nat}
    (hok : ∀ j < k, (m.stepped j).step.fault = none) :
    Answer.ofRun (Run.step^[k] (.start m)).close =
      ⟨m.stepped k, .cycles k, m.steppedLog k ++ [.stopped k]⟩ := by
  have hfault : (Run.step^[k] (.start m)).fault = none := by
    cases k with
    | zero => rfl
    | succ n =>
      rw [Run.fault_iterate_step]
      exact hok n (Nat.lt_succ_self n)
  rw [Run.close, hfault]
  simp [Answer.ofRun, Run.machine_iterate_step, Run.cycles_iterate_step hok,
    Run.log_iterate_step]

theorem ofRun_close_of_fault {m : Machine} {j : Nat} {f : Fault}
    (hfault : (m.stepped j).step.fault = some f) :
    (Run.step^[j + 1] (.start m)).close = Run.step^[j + 1] (.start m) ∧
      Answer.ofRun (Run.step^[j + 1] (.start m)) =
        ⟨m.stepped j, .failed f, m.steppedLog (j + 1)⟩ := by
  have hrun : (Run.step^[j + 1] (.start m)).fault = some f := by
    rw [Run.fault_iterate_step, hfault]
  have hmachine : m.stepped (j + 1) = m.stepped j := by
    rw [stepped_succ, ((m.stepped j).step_failsCleanly f hfault).1]
  constructor
  · rw [Run.close, hrun]
    rfl
  · rw [Answer.ofRun, hrun, Run.machine_iterate_step, Run.log_iterate_step, hmachine]

/-- **A run is its cycles, one after the other.** Take the first look before a cycle that finds that
the run is to stop. If all cycles before it succeed, the run is that many cycles: it has the machine
they lead to and what they log, and it notes their number. Otherwise it ends with the first of them
that fails: it has the machine before that cycle and notes nothing. A run that is to stop from the
start does nothing, and cycles that only wait for a key count like any others. It is all the same
how the looks find out, be it that a flag has been set from outside. -/
theorem run_iterates_step (m : Machine) (halt : Machine → Bool) (limit k : Nat)
    (hstop : m.StopSeen halt limit k) (hfirst : ∀ j < k, ¬ m.StopSeen halt limit j) :
    let run := m.run halt limit
    ((∀ j < k, (m.stepped j).step.fault = none) →
        run = (Run.step^[k] (.start m)).close ∧
          Answer.ofRun run = ⟨m.stepped k, .cycles k, m.steppedLog k ++ [.stopped k]⟩) ∧
      (∀ j < k, ∀ f, (∀ i < j, (m.stepped i).step.fault = none) →
        (m.stepped j).step.fault = some f →
          run = Run.step^[j + 1] (.start m) ∧
            Answer.ofRun run = ⟨m.stepped j, .failed f, m.steppedLog (j + 1)⟩ ∧
            ∀ count, .stopped count ∉ run.log) ∧
      (k = 0 → run = ⟨m, 0, #[.stopped 0], none⟩) ∧
      (∀ i ≤ k, (∀ j < i, (m.stepped j).step.fault = none) → (m.stepped i).isWaiting = true →
        Answer.ofRun run = ⟨m.stepped i, .cycles k, m.steppedLog i ++ [.stopped k]⟩) ∧
      (Log.Entry.stopped k).text = "stopped after " ++ toString k ++ " cycles" ∧
      ∀ looks : List Bool,
        (Run.untilSet (.replicate k false ++ true :: looks) (.start m)).map Run.close =
          some run := by
  intro run
  have hok : (∀ j < k, (m.stepped j).step.fault = none) →
      run = (Run.step^[k] (.start m)).close ∧
        Answer.ofRun run = ⟨m.stepped k, .cycles k, m.steppedLog k ++ [.stopped k]⟩ := by
    intro hsucceeds
    have hrun : run = (Run.step^[k] (.start m)).close :=
      congrArg Run.close (cyclesUntil_of_ok hstop hfirst hsucceeds)
    exact ⟨hrun, by rw [hrun, ofRun_close_of_ok hsucceeds]⟩
  refine ⟨hok, fun j hj f hbefore hfault => ?_, ?_, fun i hi hbefore hwaiting => ?_, rfl,
    fun looks => ?_⟩
  · obtain ⟨hclose, hanswer⟩ := ofRun_close_of_fault hfault
    have hrun : run = Run.step^[j + 1] (.start m) :=
      (congrArg Run.close (cyclesUntil_of_fault hfirst hj hbefore (by simp [hfault]))).trans hclose
    refine ⟨hrun, by rw [hrun, hanswer], fun count hmem => ?_⟩
    rw [hrun, ← Array.mem_toList_iff, Run.log_iterate_step] at hmem
    exact m.stopped_not_mem_steppedLog (j + 1) count hmem
  · rintro rfl
    exact (hok (by simp)).1
  · -- From the first cycle that waits on, all cycles do the same: nothing.
    have hlater : ∀ j, i ≤ j → m.stepped j = m.stepped i ∧ m.steppedLog j = m.steppedLog i := by
      intro j hj
      obtain ⟨n, rfl⟩ := Nat.exists_eq_add_of_le hj
      exact stepped_of_isWaiting hwaiting n
    have hsucceeds : ∀ j < k, (m.stepped j).step.fault = none := by
      intro j hj
      by_cases hearly : j < i
      · exact hbefore j hearly
      · rw [(hlater j (Nat.le_of_not_lt hearly)).1, step_of_isWaiting hwaiting]
        rfl
    obtain ⟨hmachine, hlog⟩ := hlater k hi
    rw [(hok hsucceeds).2, hmachine, hlog]
  · rw [Run.untilSet_eq, ← cyclesUntil_eq_of_first_stop hstop hfirst]
    rfl

/-- A return with no call before it fails before the run is to stop, and a machine that begins to
wait for a key in its second cycle goes through five. -/
theorem run_iterates_step_to_fault :
    let failing := ((bare {} (.ofList [])).load [0x60, 0x01, 0x00, 0xEE]).machine
    let waiting := ((bare {} (.ofList [])).load [0x60, 0x01, 0xF0, 0x0A]).machine
    Answer.ofRun (failing.run (fun _ => false) 3) =
        ⟨failing.stepped 1, .failed (.stackUnderflow 0x202), failing.steppedLog 2⟩ ∧
      Answer.ofRun (waiting.run (fun _ => false) 5) =
        ⟨waiting.stepped 2, .cycles 5, waiting.steppedLog 2 ++ [.stopped 5]⟩ := by
  intro failing waiting
  have hfails : (∀ i < 1, (failing.stepped i).step.fault = none) ∧
      (failing.stepped 1).step.fault = some (.stackUnderflow 0x202) := by decide +kernel
  have hwaits : (∀ i < 2, (waiting.stepped i).step.fault = none) ∧
      (waiting.stepped 2).isWaiting = true := by decide +kernel
  obtain ⟨-, hfault, -⟩ :=
    failing.run_iterates_step (fun _ => false) 3 3 (.inl rfl) (by decide)
  obtain ⟨-, -, -, hwaiting, -⟩ :=
    waiting.run_iterates_step (fun _ => false) 5 5 (.inl rfl) (by decide)
  exact ⟨(hfault 1 (by decide) _ hfails.1 hfails.2).2.1,
    hwaiting 2 (by decide) hwaits.1 hwaits.2⟩

end Machine
end ChipEight
