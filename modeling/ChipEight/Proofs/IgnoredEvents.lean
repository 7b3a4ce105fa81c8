import ChipEight.Proofs.Driving
import Mathlib.Data.List.Forall2

/-!
What does not matter. A session takes no notice of most events, and keeps to its pace or not without
its machine being concerned. So two sessions go alike, whatever their pace, if their polls give the
same events apart from those that do not matter: these ask neither for the end nor move a key of the
pad (`Event.matters`). It is the polls that have to agree, not the scripts, since how far a script
has come depends on the frames shown.
-/
namespace ChipEight.Host

/-! ## Events -/

namespace Event

/-- Whether an event asks for the end or moves a key of the pad. -/
def matters : Event → Bool
  | quit => true
  | keyDown (some key) => decide (key = .escape) || key.pad?.isSome
  | keyUp (some key) => key.pad?.isSome
  | keyDown none | keyUp none | other => false

theorem matters_eq (event : Event) :
    event.matters = (event.closes || event.request?.isSome) := by
  rcases event with _ | _ | (_ | key) | (_ | key)
  case quit | other | keyDown.none | keyUp.none => rfl
  case keyDown.some => rw [matters, closes, request?, Option.isSome_map]
  case keyUp.some => rw [matters, closes, request?, Option.isSome_map, Bool.false_or]

theorem any_closes_filter (events : List Event) :
    (events.filter matters).any closes = events.any closes := by
  rw [List.any_filter]
  congr 1
  funext event
  rw [matters_eq]
  cases event.closes <;> simp

theorem requests_filter (events : List Event) :
    requests (events.filter matters) = requests events := by
  induction events with
  | nil => rfl
  | cons event rest ih =>
    cases hcloses : event.closes with
    | true =>
      have hmatters : event.matters = true := by rw [matters_eq, hcloses]; rfl
      rw [List.filter_cons_of_pos hmatters, requests_cons_of_closes hcloses,
        requests_cons_of_closes hcloses]
    | false =>
      rw [requests_cons_of_not_closes hcloses, ← ih]
      cases hrequest : event.request? with
      | none =>
        have hmatters : ¬ event.matters = true := by simp [matters_eq, hcloses, hrequest]
        rw [List.filter_cons_of_neg hmatters]
        rfl
      | some request =>
        have hmatters : event.matters = true := by simp [matters_eq, hcloses, hrequest]
        rw [List.filter_cons_of_pos hmatters, requests_cons_of_not_closes hcloses, hrequest]

end Event

/-! ## Polls -/

/-- The events that matter of a script's next polls, at each of which so many frames have been
shown. -/
def heardPolls : List Nat → List ScriptItem → List (List Event)
  | [], _ => []
  | shown :: more, script =>
      (poll shown script).1.filter Event.matters :: heardPolls more (poll shown script).2

/-- Two items of a script that differ at most in events that do not matter. -/
inductive ScriptItem.Alike : ScriptItem → ScriptItem → Prop
  | events {events events' : List Event}
      (h : events'.filter Event.matters = events.filter Event.matters) :
      Alike (.events events) (.events events')
  | same (item : ScriptItem) : Alike item item

theorem poll_alike {script script' : List ScriptItem}
    (h : List.Forall₂ ScriptItem.Alike script script') (shown : Nat) :
    (poll shown script').1.filter Event.matters = (poll shown script).1.filter Event.matters ∧
      List.Forall₂ ScriptItem.Alike (poll shown script).2 (poll shown script').2 := by
  induction h with
  | nil => exact ⟨rfl, .nil⟩
  | @cons item _ _ _ hitem hrest ih =>
    cases hitem with
    | events hevents => exact ⟨hevents, hrest⟩
    | same =>
      rcases item with events | ⟨_ | polls⟩ | frames
      case events => exact ⟨rfl, hrest⟩
      case quiet.zero => exact ih
      case quiet.succ => exact ⟨rfl, .cons (.same _) hrest⟩
      case untilShown =>
        simp only [poll]
        split
        · exact ⟨rfl, .cons (.same _) hrest⟩
        · exact ih

/-- Scripts that differ at most in events that do not matter have the same polls, whatever is shown
meanwhile. -/
theorem heardPolls_alike {script script' : List ScriptItem}
    (h : List.Forall₂ ScriptItem.Alike script script') (counts : List Nat) :
    heardPolls counts script' = heardPolls counts script := by
  induction counts generalizing script script' with
  | nil => rfl
  | cons shown more ih =>
    obtain ⟨hevents, hrest⟩ := poll_alike h shown
    rw [heardPolls, heardPolls, hevents, ih hrest]

/-! ## Sessions -/

/-- Two sessions that differ at most in their pace. -/
def Session.SameButPace (s s' : Session) : Prop :=
  ∃ pace, s' = { s with pace }

namespace Session.SameButPace
variable {s s' : Session}

theorem of_eq (hmachine : s'.machine = s.machine) (hscreen : s'.screen = s.screen)
    (hlog : s'.log = s.log) (hending : s'.ending = s.ending) : s.SameButPace s' :=
  ⟨s'.pace, by rw [← hmachine, ← hscreen, ← hlog, ← hending]⟩

theorem ending (h : s.SameButPace s') : s'.ending = s.ending := by
  obtain ⟨pace, rfl⟩ := h
  rfl

theorem shown (h : s.SameButPace s') : s'.screen.shown = s.screen.shown := by
  obtain ⟨pace, rfl⟩ := h
  rfl

theorem refresh (h : s.SameButPace s') : s.refresh.SameButPace s'.refresh := by
  obtain ⟨pace, rfl⟩ := h
  refine ⟨pace, ?_⟩
  cases hdirty : s.machine.display.dirty with
  | false =>
    rw [refresh_of_clean hdirty]
    exact refresh_of_clean (s := { s with pace }) hdirty
  | true =>
    cases hf : s.screen.firstFailure? [.texture, .lock, .copy] with
    | some message =>
      rw [refresh_of_failure hdirty hf]
      exact refresh_of_failure (s := { s with pace }) hdirty hf
    | none =>
      rw [refresh_of_shown hdirty hf]
      exact refresh_of_shown (s := { s with pace }) hdirty hf

/-- Only the events that matter make a difference to more than the pace. -/
theorem handleAll (h : s.SameButPace s') (hgoing : s.ending = none) {events events' : List Event}
    (hevents : events'.filter Event.matters = events.filter Event.matters) :
    (Session.handleAll events s).SameButPace (Session.handleAll events' s') := by
  obtain ⟨pace, rfl⟩ := h
  have hrequests : Event.requests events' = Event.requests events := by
    rw [← Event.requests_filter, hevents, Event.requests_filter]
  have hcloses : events'.any Event.closes = events.any Event.closes := by
    rw [← Event.any_closes_filter, hevents, Event.any_closes_filter]
  obtain ⟨hmachine, hending, hlog⟩ := handleAll_asks events hgoing
  obtain ⟨hmachine', hending', hlog'⟩ := handleAll_asks events' (s := { s with pace }) hgoing
  rw [hrequests] at hmachine'
  rw [hcloses] at hending' hlog'
  exact of_eq (hmachine'.trans hmachine.symm)
    ((handleAll_display events' _).2.trans (handleAll_display events s).2.symm)
    (hlog'.trans hlog.symm) (hending'.trans hending.symm)

theorem cycle (h : s.SameButPace s') (ticks : Nat) :
    (s.cycle ticks).SameButPace (s'.cycle ticks) := by
  obtain ⟨pace, rfl⟩ := h
  refine ⟨pace, ?_⟩
  simp only [Session.cycle]
  cases s.machine.step.fault <;> rfl

theorem respond (h : s.SameButPace s') (hgoing : s.ending = none) {events events' : List Event}
    (hevents : events'.filter Event.matters = events.filter Event.matters) (ticks : Nat) :
    (s.respond events ticks).SameButPace (s'.respond events' ticks) := by
  have hall := h.handleAll hgoing hevents
  rw [Session.respond, Session.respond, andThen, andThen, hall.ending]
  split
  · exact hall
  · exact hall.cycle ticks

end Session.SameButPace

/-! ## Turns -/

namespace Scripted

/-- How many frames have been shown at each poll of a session. -/
def pollCounts (ticks : Nat → Nat) : (limit done : Nat) → Scripted → List Nat
  | 0, _, _ => []
  | limit + 1, done, s =>
      if s.session.ending.isSome || s.session.refresh.ending.isSome then []
      else
        s.session.refresh.screen.shown.size ::
          pollCounts ticks limit (done + 1) (s.turn (ticks done))

/-- Sessions with the same polls go through the same turns, save for their pace. -/
theorem turns_sameButPace (ticks : Nat → Nat) (limit done : Nat) {s s' : Scripted}
    (hsame : s.session.SameButPace s'.session)
    (hpolls : heardPolls (pollCounts ticks limit done s) s'.script =
      heardPolls (pollCounts ticks limit done s) s.script) :
    (turns ticks limit done s).session.SameButPace (turns ticks limit done s').session := by
  induction limit generalizing done s s' with
  | zero => exact hsame
  | succ limit ih =>
    cases hending : s.session.ending with
    | some ending =>
      have hended : s.session.ending ≠ none := by simp [hending]
      rw [turns_of_ended hended, turns_of_ended (hsame.ending ▸ hended)]
      exact hsame
    | none =>
      have hrefresh := hsame.refresh
      rw [turns_of_going hending, turns_of_going (hsame.ending.trans hending)]
      cases hshown : s.session.refresh.ending with
      | some ending =>
        have hfailed : s.session.refresh.ending ≠ none := by simp [hshown]
        have hfailed' : s'.session.refresh.ending ≠ none := hrefresh.ending ▸ hfailed
        rw [turn_of_failed hfailed, turn_of_failed hfailed', turns_of_ended hfailed,
          turns_of_ended hfailed']
        exact hrefresh
      | none =>
        have hturn := turn_of_shown hshown (ticks done)
        have hturn' := turn_of_shown (hrefresh.ending.trans hshown) (ticks done)
        rw [hrefresh.shown] at hturn'
        simp only [pollCounts, hending, hshown, Option.isSome_none, Bool.or_self,
          Bool.false_eq_true, if_false, heardPolls, List.cons.injEq] at hpolls
        obtain ⟨hevents, hrest⟩ := hpolls
        refine ih (done + 1) ?_ ?_
        · rw [hturn, hturn']
          exact hrefresh.respond hshown hevents (ticks done)
        · rw [hturn']
          rw [hturn] at hrest ⊢
          exact hrest

end Scripted

open CommandLine (Settings)

/-- **What is ignored has no influence.** If two scripts give the same events at the polls of a
session, apart from events that neither ask for the end nor move a key of the pad, then the sessions
that follow them come to the same machine, show the same frames, log the same and end the same way,
whatever pace either of them is set to. -/
theorem ignored_events_have_no_influence (settings : Settings) (clockHz : UInt32)
    (file : Except ReadError (List UInt8)) (fault : Option ScreenFault) (padding : Nat)
    (random : RandomBytes) (script script' : List ScriptItem) (ticks : Nat → Nat) (limit : Nat)
    (hpolls :
      let counts := (Scripted.started settings file (.fresh fault padding) random script).pollCounts
        ticks limit 0
      heardPolls counts script' = heardPolls counts script) :
    let final := (Scripted.run settings file (.fresh fault padding) random script ticks
      limit).session
    let final' := (Scripted.run { settings with clockHz } file (.fresh fault padding) random script'
      ticks limit).session
    final'.machine = final.machine ∧ final'.screen = final.screen ∧ final'.log = final.log ∧
      final'.ending = final.ending := by
  intro final final'
  let start := Scripted.started settings file (.fresh fault padding) random script
  let start' := Scripted.started { settings with clockHz } file (.fresh fault padding) random script'
  have hstart : start.session.SameButPace start'.session := ⟨start.session.pace, rfl⟩
  obtain ⟨pace, hfinal⟩ : final.SameButPace final' :=
    @Scripted.turns_sameButPace ticks limit 0 start start' hstart hpolls
  rw [hfinal]
  exact ⟨rfl, rfl, rfl, rfl⟩

/-- A program that waits for a key and then clears the display. Between the events that matter, one
of its hosts polls a space bar that goes down, a key without a name and an escape key that goes up,
and it lets the program run a thousand times as fast. -/
theorem ignored_events_have_no_influence_around_key :
    let settings : Settings := ⟨"game", { preloadFont := false }, 1, 10, .info⟩
    let file : Except ReadError (List UInt8) := .ok [0xF0, 0x0A, 0x00, 0xE0, 0x12, 0x04]
    let script : List ScriptItem :=
      [.quiet 1, .events [.keyDown (some ⟨"Q"⟩)], .untilShown 1, .events [.other, .quit]]
    let script' : List ScriptItem :=
      [.quiet 1, .events [.keyDown (some .space), .keyDown none, .keyDown (some ⟨"Q"⟩), .other],
        .untilShown 1, .events [.keyUp (some .escape), .quit]]
    let final := (Scripted.run settings file (.fresh none 3) (.ofList []) script (fun _ => 1)
      9).session
    let final' := (Scripted.run { settings with clockHz := 1000 } file (.fresh none 3) (.ofList [])
      script' (fun _ => 1) 9).session
    (final.ending = some .closed ∧ final.machine.register 0 = 4 ∧ final.screen.shown.size = 1) ∧
      final'.pace ≠ final.pace ∧ final'.machine = final.machine ∧ final'.screen = final.screen ∧
      final'.log = final.log ∧ final'.ending = final.ending := by
  intro settings file script script' final final'
  have hrun : (final.ending = some .closed ∧ final.machine.register 0 = 4 ∧
      final.screen.shown.size = 1) ∧ final'.pace ≠ final.pace := by decide +kernel
  have hscripts : List.Forall₂ ScriptItem.Alike script script' :=
    .cons (.same _) (.cons (.events rfl) (.cons (.same _) (.cons (.events rfl) .nil)))
  exact ⟨hrun.1, hrun.2, ignored_events_have_no_influence settings 1000 file none 3 (.ofList [])
    script script' (fun _ => 1) 9 (heardPolls_alike hscripts _)⟩

end ChipEight.Host
