import ChipEight.Proofs.Clock
import ChipEight.Proofs.Countdowns

/-!
The two timers of a machine. Its program sets them, and its host lets both of them fall; the delay
timer is also set and let fall through a handle on it. A moment of a history does at most one thing
to a timer (`Moment.use?`), so at any time a timer reads what the ticks since have left of the last
value it was set to (`Machine.timer_of_leads`).
-/
namespace ChipEight

open Countdown (Use)

/-- One of a machine's timers. -/
inductive Timer where
  | delay
  | sound
  deriving DecidableEq

/-- The part of a machine that a timer is. -/
def Timer.part : Timer → Part
  | delay => .delay
  | sound => .sound

/-- The countdown of a timer. -/
def Machine.timer (m : Machine) : Timer → Countdown
  | .delay => m.delay
  | .sound => m.sound

/-! ## What happens to a timer -/

/-- What a request does to a timer, the cycles it takes the machine through aside. A handle is on
the delay timer alone. -/
def Request.use? : Request → Timer → Option Use
  | tick times, _ => some (.tick times)
  | tickDelay times, .delay => some (.tick times)
  | setDelay value, .delay => some (.set value)
  | _, _ => none

/-- What an instruction does to a timer. -/
def Instruction.use? (m : Machine) : Instruction → Timer → Option Use
  | setDelay x, .delay => some (.set (m.register x))
  | setSound x, .sound => some (.set (m.register x))
  | _, _ => none

/-- What happens to a timer at a moment. -/
def Moment.use? (t : Timer) : Moment → Option Use
  | cycle start outcome _ =>
      if outcome.fault = none then start.due?.bind (·.use? start t) else none
  | answer request _ => request.use? t

namespace Machine

/-- The countdowns agree if the parts do. -/
theorem timer_eq_of_same {m m' : Machine} {t : Timer} (h : t.part.Same m m') :
    m'.timer t = m.timer t := by
  cases t <;> exact h

theorem timer_execute (i : Instruction) (m : Machine) (t : Timer) :
    (i.execute m).machine.timer t = (i.use? m t).elim (m.timer t) (m.timer t).use := by
  by_cases htouch : t.part ∈ i.touches
  · cases t <;> cases i <;> simp [Timer.part, Instruction.touches] at htouch <;> rfl
  · have hnone : i.use? m t = none := by
      cases t <;> cases i <;> simp [Timer.part, Instruction.touches] at htouch <;> rfl
    have hpc : t.part ≠ .pc := by cases t <;> decide
    rw [hnone]
    exact timer_eq_of_same (i.execute_same m htouch hpc)

theorem timer_step (m : Machine) (t : Timer) :
    m.step.machine.timer t = (m.nextCycle.use? t).elim (m.timer t) (m.timer t).use := by
  rw [nextCycle, Moment.use?]
  cases hfault : m.step.fault with
  | some f =>
    rw [(m.step_failsCleanly f hfault).1, if_neg (by simp)]
    rfl
  | none =>
    rw [if_pos rfl]
    cases hdue : m.due? with
    | none =>
      exact timer_eq_of_same (m.step_same (by simp [hdue]) (by cases t <;> decide))
    | some i =>
      rw [step_of_due? hdue]
      exact timer_execute i m t

theorem timer_serve {request : Request} (h : request.goes = false) (m : Machine) (t : Timer) :
    (m.serve request).machine.timer t = (request.use? t).elim (m.timer t) (m.timer t).use := by
  cases request with
  | tick times =>
    show (ticks times m).timer t = _
    rw [ticks_eq]
    cases t <;> rfl
  | setDelay | tickDelay => cases t <;> rfl
  | step | run => cases h
  | _ => exact timer_eq_of_same (serve_same h (by cases t <;> simp [Request.touches, Timer.part]) m)

theorem tells_timer (t : Timer) : Tells (·.timer t) fun c x => (x.use? t).elim c c.use where
  cycle m := m.timer_step t
  served m request h := timer_serve h m t
  summed c request h answer := by
    cases request with
    | step | run => rfl
    | _ => cases h

theorem foldl_elim_use {α : Type} (use? : α → Option Use) (as : List α) (c : Countdown) :
    as.foldl (fun c a => (use? a).elim c c.use) c = (as.filterMap use?).foldl Countdown.use c := by
  rw [List.foldl_filterMap]
  refine congrFun (congrFun (congrArg _ ?_) c) as
  funext c a
  cases use? a <;> rfl

/-- A timer at zero reads, later on, what is left of the last value it was set to. -/
theorem timer_of_leads {m n : Machine} {moments : List Moment} (hleads : m.Leads moments n)
    {t : Timer} (h : m.timer t = ⟨0⟩) :
    (n.timer t).value.toNat = Countdown.remaining (moments.filterMap (·.use? t)) := by
  rw [← Countdown.toNat_foldl_use, ← foldl_elim_use, ← h, ← (tells_timer t).foldl hleads]

theorem step_of_readDelay {m : Machine} {x : Register} (hdue : m.due? = some (.readDelay x)) :
    m.step = .success { m.setRegister x m.delay.value with pc := m.pc + 2 } := by
  rw [step_of_due? hdue]
  rfl

/-- **The timers read what is left of their last values.** In every state a machine comes to,
waiting or faulted ones included, the delay timer reads what the ticks since, of the host or through
a handle, have left of the value that the program or a handle set last; and the sound timer what the
ticks of the host have left of the value that the program set last. The instruction that reads the
delay timer puts into its register what the timer then reads. Nothing else that a host can ask for
changes a timer, a handle never changes the sound timer, and a cycle that fails changes neither. -/
theorem timers_read_remaining (config : Config) (random : RandomBytes) (requests : List Request) :
    let past := (create config random).history requests
    let now := (create config random).after requests
    (∀ t, (now.timer t).value.toNat = Countdown.remaining (past.filterMap (·.use? t))) ∧
      (∀ before start outcome log behind x, past = before ++ .cycle start outcome log :: behind →
        start.due? = some (.readDelay x) →
          outcome.fault = none ∧ (outcome.machine.register x).toNat =
            Countdown.remaining (before.filterMap (·.use? .delay))) ∧
      (∀ request : Request, request.goes = false → request.clocks = false →
        ∀ t, (now.serve request).machine.timer t = now.timer t) ∧
      (∀ value times, (now.serve (.setDelay value)).machine.sound = now.sound ∧
        (now.serve (.tickDelay times)).machine.sound = now.sound) ∧
      ∀ f, now.step.fault = some f → ∀ t, now.step.machine.timer t = now.timer t := by
  intro past now
  have hleads : (create config random).Leads past now := .history _ requests
  have hstart : ∀ t, (create config random).timer t = ⟨0⟩ := by
    intro t
    cases t <;> rfl
  refine ⟨fun t => timer_of_leads hleads (hstart t), ?_, ?_, fun value times => ⟨rfl, rfl⟩, ?_⟩
  · intro before start outcome log behind x hpast hdue
    rw [hpast] at hleads
    obtain ⟨hbefore, rfl, -⟩ := hleads.to_cycle
    rw [step_of_readDelay hdue]
    refine ⟨rfl, ?_⟩
    rw [← timer_of_leads hbefore (hstart .delay)]
    exact congrArg UInt8.toNat ((register_setRegister start x x _).trans (if_pos rfl))
  · intro request hgoes hclocks t
    rw [timer_serve hgoes]
    cases request with
    | tick | setDelay | tickDelay => cases hclocks
    | _ => rfl
  · intro f hf t
    rw [(now.step_failsCleanly f hf).1]

/-- A program that sets both timers, reads the delay timer and then fails. Before it reads the
timer, a handle sets it anew and lets it fall; and after the fault the host lets both of them fall,
one to zero. -/
theorem timers_read_remaining_through_fault :
    let m := create { unknown := .fail, preloadFont := false } (.ofList [])
    let begin := [Request.load [0x60, 0x05, 0xF0, 0x15, 0xF0, 0x18, 0xF1, 0x07], .step 3, .tick 2,
      .setDelay 9, .tickDelay 3, .press 4]
    let reads := m.after begin
    let now := m.after (begin ++ [.step 2, .tick 4])
    (reads.due? = some (.readDelay 1) ∧ now.step.fault = some (.unknownOpcode ⟨0⟩ 0x208)) ∧
      (reads.step.machine.register 1).toNat = 6 ∧ (now.timer .delay).value.toNat = 2 ∧
      (now.timer .sound).value.toNat = 0 ∧ now.step.machine.timer .delay = now.timer .delay ∧
      (now.serve (.press 5)).machine.timer .delay = now.timer .delay := by
  intro m begin reads now
  let past := m.history begin
  let all := m.history (begin ++ [.step 2, .tick 4])
  have hstates : reads.due? = some (.readDelay 1) ∧
      now.step.fault = some (.unknownOpcode ⟨0⟩ 0x208) := by decide +kernel
  have hremaining : Countdown.remaining (past.filterMap (·.use? .delay)) = 6 ∧
      Countdown.remaining (all.filterMap (·.use? .delay)) = 2 ∧
      Countdown.remaining (all.filterMap (·.use? .sound)) = 0 := by decide +kernel
  obtain ⟨hdue, hfault⟩ := hstates
  obtain ⟨hread, hdelay, hsound⟩ := hremaining
  obtain ⟨rest, hrest⟩ : ∃ rest, reads.history [.step 2, .tick 4] = reads.nextCycle :: rest :=
    ⟨_, rfl⟩
  have hpast : all = past ++ reads.nextCycle :: rest := by
    rw [← hrest]
    exact m.history_append begin [.step 2, .tick 4]
  obtain ⟨htimers, hreads, hothers, -, hfailed⟩ := timers_read_remaining _ (.ofList [])
    (begin ++ [.step 2, .tick 4])
  refine ⟨⟨hdue, hfault⟩, (hreads _ _ _ _ _ _ hpast hdue).2.trans hread,
    (htimers .delay).trans hdelay, (htimers .sound).trans hsound, hfailed _ hfault .delay,
    hothers (.press 5) rfl rfl .delay⟩

end Machine
end ChipEight
