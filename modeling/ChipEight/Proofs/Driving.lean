import ChipEight.Proofs.Presentation
import ChipEight.Proofs.Requests

/-!
What a session asks of its machine. Seen from the machine a session is a list of requests: each turn
takes the frame if there is one to be shown, moves the keys that the events of one poll name, and
asks for a cycle and some ticks. `Driven` is a machine that is asked for just that, with no session
around it. As long as the screen does not fail the two go through the same turns
(`Scripted.turns_drive`), and the first turn that closes or fails is the one that ends the session.
-/
namespace ChipEight.Host

/-! ## Events -/

namespace Event

/-- Whether an event asks for the end of the session. -/
def closes : Event → Bool
  | quit => true
  | keyDown (some key) => decide (key = .escape)
  | keyDown none | keyUp _ | other => false

/-- What an event asks of a machine: to move the key of the pad that lies on the event's key. -/
def request? : Event → Option Request
  | keyDown (some key) => key.pad?.map .press
  | keyUp (some key) => key.pad?.map .release
  | keyDown none | keyUp none | quit | other => none

/-- The pace an event sets, if it sets one. -/
def pace? : Event → Option Pace
  | keyDown (some key) =>
      match key.pad? with
      | some _ => none
      | none => if key = .space then some .unlimited else none
  | keyUp (some key) =>
      match key.pad? with
      | some _ => none
      | none => if key = .space then some .clocked else none
  | keyDown none | keyUp none | quit | other => none

/-- What the events of one poll ask of a machine. What comes behind an event that asks for the end
is lost. -/
def requests (events : List Event) : List Request :=
  (events.takeWhile fun event => !event.closes).filterMap request?

theorem requests_cons_of_closes {event : Event} (h : event.closes = true) (rest : List Event) :
    requests (event :: rest) = [] := by
  simp [requests, h]

theorem requests_cons_of_not_closes {event : Event} (h : event.closes = false)
    (rest : List Event) :
    requests (event :: rest) = event.request?.toList ++ requests rest := by
  rw [requests, List.takeWhile_cons_of_pos (by simp [h]), List.filterMap_cons]
  cases event.request? <;> rfl

end Event

namespace Session

theorem handle_of_closes {event : Event} (h : event.closes = true) (s : Session) :
    s.handle event = s.close := by
  rcases event with _ | _ | (_ | key) | (_ | key)
  case quit => rfl
  case keyDown.some =>
    have hkey : key = .escape := of_decide_eq_true h
    simp [handle, hkey]
  case other | keyDown.none | keyUp.none | keyUp.some => cases h

/-- Any other event goes to the machine or to the pace, if it goes anywhere. -/
theorem handle_of_not_closes {event : Event} (h : event.closes = false) (s : Session) :
    s.handle event = { s with
      machine := s.machine.after event.request?.toList
      pace := event.pace?.getD s.pace } := by
  rcases event with _ | _ | (_ | key) | (_ | key)
  case quit => cases h
  case other | keyDown.none | keyUp.none => rfl
  case keyDown.some =>
    have hkey : key ≠ .escape := of_decide_eq_false h
    rw [handle, if_neg hkey, Event.request?, Event.pace?]
    cases key.pad? with
    | some pad => rfl
    | none =>
      dsimp only
      split <;> rfl
  case keyUp.some =>
    rw [handle, Event.request?, Event.pace?]
    cases key.pad? with
    | some pad => rfl
    | none =>
      dsimp only
      split <;> rfl

/-- The events of a poll go to the machine one after the other, up to the one that ends the
session. -/
theorem handleAll_asks (events : List Event) {s : Session} (hgoing : s.ending = none) :
    (handleAll events s).machine = s.machine.after (Event.requests events) ∧
      (handleAll events s).ending = (if events.any Event.closes then some .closed else none) ∧
      (handleAll events s).log =
        (if events.any Event.closes then s.log.push .closed else s.log) := by
  induction events generalizing s with
  | nil => exact ⟨rfl, hgoing, rfl⟩
  | cons event rest ih =>
    cases hcloses : event.closes with
    | true =>
      have hclosed : handleAll (event :: rest) s = s.close := by
        rw [handleAll, handle_of_closes hcloses]
        rfl
      rw [hclosed, Event.requests_cons_of_closes hcloses]
      simp [hcloses, close, Machine.after]
    | false =>
      have hhandle := s.handle_of_not_closes hcloses
      have hon : (s.handle event).ending = none := by
        rw [hhandle]
        exact hgoing
      obtain ⟨hmachine', hending', hlog'⟩ := ih hon
      have hall : handleAll (event :: rest) s = handleAll rest (s.handle event) := by
        rw [handleAll, andThen, hon]
        rfl
      rw [hall, Event.requests_cons_of_not_closes hcloses, hmachine', hending', hlog', hhandle]
      simp [hcloses, Machine.after, List.foldl_append]

end Session

/-! ## A machine in the hands of a host -/

/-- A machine before a turn, with what is left of its host's script and how many frames the host
has taken from it. -/
structure Driven where
  machine : Machine
  taken : Nat
  script : List ScriptItem

namespace Driven

/-- How many frames the host has taken when it polls for events. -/
def taking (d : Driven) : Nat :=
  if d.machine.display.dirty then d.taken + 1 else d.taken

/-- The events of the turn's poll. -/
def events (d : Driven) : List Event :=
  (poll d.taking d.script).1

/-- Whether one of them asks for the end. -/
def closes (d : Driven) : Bool :=
  d.events.any Event.closes

/-- What the host asks for before the cycle of the turn. -/
def requests (d : Driven) : List Request :=
  (if d.machine.display.dirty then [.acknowledge] else []) ++ Event.requests d.events

/-- The machine that the cycle of the turn starts from. -/
def asked (d : Driven) : Machine :=
  d.machine.after d.requests

/-- The next turn, if this one has gone well, and the timers fell so often. -/
def next (d : Driven) (ticks : Nat) : Driven where
  machine := d.asked.after [.step 1, .tick ticks]
  taken := d.taking
  script := (poll d.taking d.script).2

/-- The turns one after the other; `ticks` says how often the timers fall in each of them. -/
def turn (d : Driven) (ticks : Nat → Nat) : Nat → Driven
  | 0 => d
  | k + 1 => (d.turn ticks k).next (ticks k)

/-- Nothing asks for the end, and the cycle of the turn succeeds. -/
def GoesOn (d : Driven) : Prop :=
  d.closes = false ∧ d.asked.step.fault = none

/-- The session that a turn has ended. -/
inductive Ends (d : Driven) (s : Session) : Prop where
  /-- It was asked to end, and comes to no cycle. -/
  | closed (hcloses : d.closes = true) (hending : s.ending = some .closed)
      (hmachine : s.machine = d.asked) (hlog : s.log.back? = some .closed)
  /-- Its cycle failed, so the timers did not fall. -/
  | failed {cause : Fault} (hcloses : d.closes = false)
      (hfault : d.asked.step.fault = some cause)
      (hending : s.ending = some (.failed (.cycle d.asked.step.machine.pc cause)))
      (hmachine : s.machine = d.asked.step.machine) (hlog : .closed ∉ s.log)

theorem Ends.ended {d : Driven} {s : Session} (h : d.Ends s) : s.ending ≠ none := by
  cases h with
  | closed _ hending | failed _ _ hending => simp [hending]

theorem Ends.not_goesOn {d : Driven} {s : Session} (h : d.Ends s) : ¬ d.GoesOn := by
  cases h with
  | closed hcloses => simp [GoesOn, hcloses]
  | failed _ hfault => simp [GoesOn, hfault]

end Driven

/-! ## Turns -/

/-- No cycle says that the session was closed. -/
theorem closed_not_mem_stepLog (m : Machine) : .closed ∉ m.stepLog := by
  intro h
  obtain ⟨op, h | h⟩ := Machine.exists_of_mem_stepLog h <;> cases h

/-- A session that goes on, and the machine that is asked for the same. -/
structure Session.Drives (s : Session) (m : Machine) (taken : Nat) : Prop where
  going : s.ending = none
  machine : s.machine = m
  shown : s.screen.shown.size = taken
  unclosed : .closed ∉ s.log

namespace Session.Drives
variable {s : Session} {d : Driven}

/-- A frame that is pending is taken, unless the screen fails. -/
theorem refresh (h : s.Drives d.machine d.taken) :
    s.refresh.ScreenFailed ∨
      s.refresh.Drives
        (d.machine.after (if d.machine.display.dirty then [.acknowledge] else [])) d.taking := by
  obtain ⟨hgoing, hmachine, hshown, hopen⟩ := h
  cases hdirty : d.machine.display.dirty with
  | false =>
    right
    rw [refresh_of_clean (by rw [hmachine, hdirty]), Driven.taking, hdirty]
    exact ⟨hgoing, hmachine, hshown, hopen⟩
  | true =>
    rcases refresh_of_dirty (s := s) (by rw [hmachine, hdirty]) with hfail | hs
    · exact .inl hfail
    · right
      rw [hs, Driven.taking, hdirty]
      refine ⟨hgoing, ?_, ?_, hopen⟩
      · rw [hmachine]
        rfl
      · rw [Array.size_push, hshown]
        rfl

/-- After the frame has been taken, a turn goes on or ends as it does for the machine. -/
theorem respond (h : s.Drives
      (d.machine.after (if d.machine.display.dirty then [.acknowledge] else [])) d.taking)
    (ticks : Nat) :
    d.GoesOn ∧ (s.respond d.events ticks).Drives (d.next ticks).machine d.taking ∨
      d.Ends (s.respond d.events ticks) := by
  obtain ⟨hgoing, hmachine, hshown, hopen⟩ := h
  obtain ⟨hasked, hending, hlog⟩ := handleAll_asks d.events hgoing
  have hscreen := (handleAll_display d.events s).2
  have hm : (handleAll d.events s).machine = d.asked := by
    rw [hasked, hmachine, Driven.asked, Driven.requests, Machine.after_append]
  rw [Session.respond, andThen, hending]
  rw [← Driven.closes] at hending hlog ⊢
  cases hcloses : d.closes with
  | true =>
    simp only [hcloses, if_true] at hending hlog
    exact .inr (.closed hcloses hending hm (by simp [hlog]))
  | false =>
    simp only [hcloses, Bool.false_eq_true, if_false] at hending hlog
    have hunclosed :
        .closed ∉ (handleAll d.events s).log ++ (handleAll d.events s).machine.stepLog := by
      rw [hlog, ← Array.mem_toList_iff]
      simp [hopen, closed_not_mem_stepLog]
    have hstep : (d.asked.serve (.step 1)).machine = d.asked.step.machine := d.asked.act_cycle
    simp only [Option.isSome_none, Bool.false_eq_true, if_false]
    cases hfault : d.asked.step.fault with
    | none =>
      left
      refine ⟨⟨hcloses, hfault⟩, ?_⟩
      rw [Session.cycle, hm, hfault]
      refine ⟨hending, ?_, ?_, by rwa [← hm]⟩
      · show _ = ((d.asked.serve (.step 1)).machine.serve (.tick ticks)).machine
        rw [hstep]
        rfl
      · show (handleAll d.events s).screen.shown.size = _
        rw [hscreen, hshown]
    | some cause =>
      right
      rw [Session.cycle, hm, hfault]
      exact .failed hcloses hfault rfl rfl (by rwa [← hm])

end Session.Drives

/-! ## Runs -/

namespace Scripted

/-- A session going through its script together with the machine it drives. -/
structure Drives (s : Scripted) (d : Driven) : Prop where
  session : s.session.Drives d.machine d.taken
  script : s.script = d.script

/-- One turn of both, unless the screen fails. -/
theorem Drives.turn {s : Scripted} {d : Driven} (h : s.Drives d) (ticks : Nat) :
    (s.turn ticks).session.ScreenFailed ∨
      d.GoesOn ∧ (s.turn ticks).Drives (d.next ticks) ∨ d.Ends (s.turn ticks).session := by
  obtain ⟨hsession, hscript⟩ := h
  rcases hsession.refresh with ⟨message, hfail⟩ | hrefresh
  · left
    exact ⟨message, by rw [turn_of_failed (by simp [hfail]), hfail]⟩
  · right
    have hturn : s.turn ticks =
        ⟨s.session.refresh.respond d.events ticks, (d.next ticks).script⟩ := by
      rw [turn_of_shown hrefresh.going, hrefresh.shown, hscript]
      rfl
    rw [hturn]
    rcases hrefresh.respond ticks with ⟨hgoes, hdrives⟩ | hends
    · exact .inl ⟨hgoes, hdrives, rfl⟩
    · exact .inr hends

/-- The turns of both, up to the one that ends the session, unless the screen fails. -/
theorem turns_drive (ticks : Nat → Nat) (start : Driven) (limit done : Nat) {s : Scripted}
    (h : s.Drives (start.turn ticks done)) (hbefore : ∀ k < done, (start.turn ticks k).GoesOn) :
    let final := turns ticks limit done s
    final.session.ScreenFailed ∨
      (∀ k < done + limit, (start.turn ticks k).GoesOn) ∧
        final.Drives (start.turn ticks (done + limit)) ∨
      ∃ n < done + limit, (∀ k < n, (start.turn ticks k).GoesOn) ∧
        (start.turn ticks n).Ends final.session := by
  induction limit generalizing done s with
  | zero => exact .inr (.inl ⟨hbefore, h⟩)
  | succ limit ih =>
    rw [turns_of_going h.session.going]
    rcases h.turn (ticks done) with ⟨message, hfail⟩ | ⟨hgoes, hnext⟩ | hends
    · left
      rw [turns_of_ended (by simp [hfail])]
      exact ⟨message, hfail⟩
    · rw [show done + (limit + 1) = done + 1 + limit by omega]
      refine ih (done + 1) hnext fun k hk => ?_
      rcases Nat.lt_succ_iff_lt_or_eq.mp hk with hlt | rfl
      · exact hbefore k hlt
      · exact hgoes
    · rw [turns_of_ended hends.ended]
      exact .inr (.inr ⟨done, by omega, hbefore, hends⟩)

/-- At most one turn is the first that does not go on. -/
theorem eq_of_first {goes : Nat → Prop} {n k : Nat} (hn : ∀ i < n, goes i) (hk : ∀ i < k, goes i)
    (hnot : ¬ goes n) (hnot' : ¬ goes k) : n = k := by
  rcases Nat.lt_trichotomy n k with hlt | heq | hlt
  · exact absurd (hk n hlt) hnot
  · exact heq
  · exact absurd (hn k hlt) hnot'

end Scripted

/-! ## Sessions -/

open CommandLine (Settings)

theorem Session.openWindow_log (s : Session) (scale : UInt32) :
    (s.openWindow scale).log = s.log := by
  unfold Session.openWindow
  split
  split <;> rfl

/-- A session that has come through its start has loaded its program, and asked for nothing else. -/
theorem Session.drives_start {settings : Settings} {image : List UInt8} {screen : Screen}
    {random : RandomBytes}
    (h : (Session.start settings (.ok image) screen random).ending = none) :
    (Session.start settings (.ok image) screen random).Drives
      ((Machine.create settings.config random).after [.load image]) screen.shown.size := by
  have hshown := (Session.start_display settings (.ok image) screen random).2
  refine ⟨h, ?_, by rw [hshown], ?_⟩
  · show _ = (Machine.create settings.config random).act (.load image)
    rw [Machine.act_load]
    simp only [Session.start] at h ⊢
    split at h
    · cases h
    · exact (Session.openWindow_display _ _).1
  · simp only [Session.start] at h ⊢
    split at h
    · cases h
    · rw [Session.openWindow_log]
      simp

/-- **A session asks its machine for what its turns say.** In a session that came through its start,
that ended, and that no failure of the screen cut short, the machine is in the end the one that was
asked for just this: to load the program, and then in each turn to hand over the frame if there is
one to be shown, to move the keys that the events of the turn's poll name, up to one that asks for
the end, and if there was none for one cycle and the ticks of the turn. The session was closed if a
poll asked for the end before a cycle failed, and says so last; otherwise it ended with the fault of
the first cycle that failed. -/
theorem session_drives_machine (settings : Settings) (image : List UInt8)
    (fault : Option ScreenFault) (padding : Nat) (random : RandomBytes) (script : List ScriptItem)
    (ticks : Nat → Nat) (limit : Nat) (ending : Ending)
    (hstart : (Scripted.started settings (.ok image) (.fresh fault padding) random
      script).session.ending = none)
    (hend : (Scripted.run settings (.ok image) (.fresh fault padding) random script ticks
      limit).session.ending = some ending)
    (hscreen : ∀ message, ending ≠ .failed (.screen message)) :
    let final := (Scripted.run settings (.ok image) (.fresh fault padding) random script ticks
      limit).session
    let start : Driven :=
      ⟨(Machine.create settings.config random).after [.load image], 0, script⟩
    (∃ n < limit, (∀ k < n, (start.turn ticks k).GoesOn) ∧ (start.turn ticks n).Ends final) ∧
      (ending = .closed ↔
        ∃ n, (∀ k < n, (start.turn ticks k).GoesOn) ∧ (start.turn ticks n).closes = true) := by
  intro final start
  have hdrives : (Scripted.started settings (.ok image) (.fresh fault padding) random
      script).Drives (start.turn ticks 0) := ⟨Session.drives_start hstart, rfl⟩
  have hruns := Scripted.turns_drive ticks start limit 0 hdrives (by simp)
  rw [Nat.zero_add] at hruns
  rcases hruns with ⟨message, hfail⟩ | ⟨-, hgoing⟩ | ⟨n, hn, hbefore, hends⟩
  · have : some ending = some (.failed (.screen message)) := hend.symm.trans hfail
    exact absurd (Option.some.inj this) (hscreen message)
  · have : some ending = none := hend.symm.trans hgoing.session.going
    cases this
  · have hfinal : final.ending = some ending := hend
    refine ⟨⟨n, hn, hbefore, hends⟩, ?_, ?_⟩
    · rintro rfl
      cases hends with
      | closed hcloses => exact ⟨n, hbefore, hcloses⟩
      | failed _ _ hending => cases hfinal.symm.trans hending
    · rintro ⟨k, hbefore', hcloses⟩
      have hk : ¬ (start.turn ticks k).GoesOn := by simp [Driven.GoesOn, hcloses]
      obtain rfl : n = k := Scripted.eq_of_first hbefore hbefore' hends.not_goesOn hk
      cases hends with
      | closed _ hending => exact Option.some.inj (hfinal.symm.trans hending)
      | failed hno => cases hcloses.symm.trans hno

/-- A program that waits for a key and then clears the display. The second poll gives it its key,
and once the frame has been shown a poll comes that ends the session between two other keys: the
first of them has gone down, the second has not. -/
theorem session_drives_machine_until_escape :
    let settings : Settings := ⟨"game", { preloadFont := false }, 500, 10, .info⟩
    let image := [0xF0, 0x0A, 0x00, 0xE0, 0x12, 0x04]
    let fault : Option ScreenFault := some ⟨.texture, "lost", 4⟩
    let script := [.quiet 1, .events [.keyUp (some .space), .keyDown (some ⟨"Q"⟩)], .untilShown 1,
      .events [.keyDown (some ⟨"W"⟩), .keyDown (some .escape), .keyDown (some ⟨"E"⟩)]]
    let final := (Scripted.run settings (.ok image) (.fresh fault 3) (.ofList []) script
      (fun turn => turn) 9).session
    let start : Driven :=
      ⟨(Machine.create settings.config (.ofList [])).after [.load image], 0, script⟩
    (final.ending = some .closed ∧ final.machine.register 0 = 4 ∧
        final.machine.keyDown 5 = true ∧ final.machine.keyDown 6 = false) ∧
      ∃ n < 9, (∀ k < n, (start.turn (fun turn => turn) k).GoesOn) ∧
        (start.turn (fun turn => turn) n).Ends final := by
  intro settings image fault script final start
  have hstart : (Scripted.started settings (.ok image) (.fresh fault 3) (.ofList [])
      script).session.ending = none := by decide +kernel
  have hfinal : final.ending = some .closed ∧ final.machine.register 0 = 4 ∧
      final.machine.keyDown 5 = true ∧ final.machine.keyDown 6 = false := by decide +kernel
  have hscreen : ∀ message, Ending.closed ≠ .failed (.screen message) := by
    intro message hclosed
    cases hclosed
  exact ⟨hfinal, (session_drives_machine settings image fault 3 (.ofList []) script
    (fun turn => turn) 9 .closed hstart hfinal.1 hscreen).1⟩

end ChipEight.Host
