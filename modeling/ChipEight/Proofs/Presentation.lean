import ChipEight.Host.Session
import ChipEight.Proofs.Drawing
import ChipEight.Proofs.Picture

/-!
What a session shows. `Machine.drawn?` is the frame a cycle that draws leaves. The frames a session
has shown, followed by the one that is still to be shown, are at every turn the frames its cycles
have drawn (`Session.ShowsUpTo`). Each turn shows what is pending before it does anything that
could end it, so nothing is pending at the end.
-/
namespace ChipEight

/-! ## Frames that stay -/

namespace Machine

theorem display_press (m : Machine) (key : UInt8) : (m.press key).display = m.display := by
  have hsame : Part.display.Same m (m.act (.press key)) := m.act_same _ (by simp [Act.touches])
  exact hsame

theorem display_release (m : Machine) (key : UInt8) : (m.release key).display = m.display := by
  have hsame : Part.display.Same m (m.act (.release key)) := m.act_same _ (by simp [Act.touches])
  exact hsame

theorem display_ticks (times : Nat) (m : Machine) : (m.ticks times).display = m.display := by
  rw [ticks_eq]

end Machine

namespace Host

/-! ## Turns -/

namespace Session

/-- The session ended because its screen failed. -/
def ScreenFailed (s : Session) : Prop :=
  ∃ message, s.ending = some (.failed (.screen message))

/-- What has been shown, and what is still to be shown, is what has been drawn. -/
structure ShowsUpTo (s : Session) (drawn : List Frame) : Prop where
  shown : s.screen.shown.toList ++ s.machine.display.pending?.toList = drawn
  last : drawn.getLast?.getD .blank = s.machine.display.frame

theorem refresh_of_clean {s : Session} (h : s.machine.display.dirty = false) : s.refresh = s := by
  simp [refresh, Display.pending?, h]

theorem refresh_of_failure {s : Session} (h : s.machine.display.dirty = true) {message : String}
    (hf : s.screen.firstFailure? [.texture, .lock, .copy] = some message) :
    s.refresh = s.fail (.screen message) := by
  simp [refresh, Display.pending?, h, Screen.present, hf]

theorem refresh_of_shown {s : Session} (h : s.machine.display.dirty = true)
    (hf : s.screen.firstFailure? [.texture, .lock, .copy] = none) :
    s.refresh = { s with
      screen := { s.screen with shown := s.screen.shown.push s.machine.display.frame }
      machine := s.machine.acknowledge } := by
  simp [refresh, Display.pending?, h, Screen.present, hf, Screen.seen_eq]

/-- A frame that is pending is shown as it is, unless the screen fails. -/
theorem refresh_of_dirty {s : Session} (h : s.machine.display.dirty = true) :
    s.refresh.ScreenFailed ∨
      s.refresh = { s with
        screen := { s.screen with shown := s.screen.shown.push s.machine.display.frame }
        machine := s.machine.acknowledge } := by
  cases hf : s.screen.firstFailure? [.texture, .lock, .copy] with
  | some message =>
    left
    exact ⟨message, by rw [refresh_of_failure h hf]; rfl⟩
  | none => exact .inr (refresh_of_shown h hf)

theorem ShowsUpTo.refresh {s : Session} {drawn : List Frame} (h : s.ShowsUpTo drawn) :
    s.refresh.ScreenFailed ∨
      s.refresh.ShowsUpTo drawn ∧ s.refresh.machine.display.dirty = false ∧
        s.refresh.ending = s.ending := by
  cases hd : s.machine.display.dirty with
  | false =>
    rw [refresh_of_clean hd]
    exact .inr ⟨h, hd, rfl⟩
  | true =>
    rcases refresh_of_dirty hd with hfail | hs
    · exact .inl hfail
    · have hshown := h.shown
      rw [hs]
      refine .inr ⟨⟨?_, h.last⟩, rfl, rfl⟩
      simpa [Display.pending?, hd, Machine.acknowledge, Display.acknowledge] using hshown

/-! ### Events -/

/-- An event neither draws nor shows. -/
theorem handle_display (s : Session) (event : Event) :
    (s.handle event).machine.display = s.machine.display ∧
      (s.handle event).screen = s.screen := by
  rcases event with _ | _ | (_ | key) | (_ | key)
  case quit | other | keyDown.none | keyUp.none => exact ⟨rfl, rfl⟩
  case keyDown.some =>
    simp only [handle]
    split
    · exact ⟨rfl, rfl⟩
    · split
      · exact ⟨s.machine.display_press _, rfl⟩
      · split <;> exact ⟨rfl, rfl⟩
  case keyUp.some =>
    simp only [handle]
    split
    · exact ⟨s.machine.display_release _, rfl⟩
    · split <;> exact ⟨rfl, rfl⟩

theorem andThen_display {s : Session} {f : Session → Session}
    (hf : ∀ s', (f s').machine.display = s'.machine.display ∧ (f s').screen = s'.screen) :
    (s.andThen f).machine.display = s.machine.display ∧ (s.andThen f).screen = s.screen := by
  unfold andThen
  split
  · exact ⟨rfl, rfl⟩
  · exact hf s

theorem handleAll_display (events : List Event) (s : Session) :
    (handleAll events s).machine.display = s.machine.display ∧
      (handleAll events s).screen = s.screen := by
  induction events generalizing s with
  | nil => exact ⟨rfl, rfl⟩
  | cons event rest ih =>
    obtain ⟨hd, hs⟩ := s.handle_display event
    obtain ⟨hd', hs'⟩ := (s.handle event).andThen_display ih
    exact ⟨hd'.trans hd, hs'.trans hs⟩

theorem ShowsUpTo.handleAll {s : Session} {drawn : List Frame} (h : s.ShowsUpTo drawn)
    (events : List Event) : (Session.handleAll events s).ShowsUpTo drawn := by
  obtain ⟨hd, hs⟩ := handleAll_display events s
  exact ⟨by rw [hd, hs]; exact h.shown, by rw [hd]; exact h.last⟩

/-! ### The cycle -/

theorem cycle_display (s : Session) (ticks : Nat) :
    (s.cycle ticks).machine.display = s.machine.step.machine.display ∧
      (s.cycle ticks).screen = s.screen := by
  cases hf : s.machine.step.fault with
  | none => simp [cycle, hf, Machine.display_ticks]
  | some cause => simp [cycle, hf, fail]

/-- A cycle adds the frame it draws to those that have to be shown. -/
theorem ShowsUpTo.cycle {s : Session} {drawn : List Frame} (h : s.ShowsUpTo drawn)
    (hclean : s.machine.display.dirty = false) (ticks : Nat) :
    (s.cycle ticks).ShowsUpTo (drawn ++ s.machine.drawn?.toList) := by
  obtain ⟨hdisplay, hscreen⟩ := s.cycle_display ticks
  have hshown : s.screen.shown.toList = drawn := by
    simpa [Display.pending?, hclean] using h.shown
  have hstep := s.machine.display_step
  cases hd : s.machine.drawn? with
  | none =>
    rw [hd] at hstep
    refine ⟨?_, ?_⟩
    · rw [hdisplay, hscreen, hstep]
      simp [Display.pending?, hclean, hshown]
    · rw [hdisplay, hstep]
      simpa using h.last
  | some f =>
    rw [hd] at hstep
    refine ⟨?_, ?_⟩
    · rw [hdisplay, hscreen, hstep]
      simp [Display.pending?, hshown]
    · rw [hdisplay, hstep]
      simp

/-- A cycle that ends a session draws nothing. -/
theorem clean_of_cycle_ends {s : Session} (hclean : s.machine.display.dirty = false)
    (hgoing : s.ending = none) {ticks : Nat} (h : (s.cycle ticks).ending ≠ none) :
    (s.cycle ticks).machine.display.dirty = false := by
  rw [(s.cycle_display ticks).1]
  cases hf : s.machine.step.fault with
  | none =>
    refine absurd ?_ h
    simp [Session.cycle, hf, hgoing]
  | some cause =>
    rw [(s.machine.step_failsCleanly cause hf).1]
    exact hclean

end Session

namespace Scripted

/-- The machine the cycle of a turn starts from, if the turn comes to its cycle. -/
def cycleStart? (s : Scripted) : Option Machine :=
  let session := s.session.refresh
  if session.ending.isSome then none
  else
    let session := Session.handleAll (poll session.screen.shown.size s.script).1 session
    if session.ending.isSome then none else some session.machine

/-- The machines the cycles of a run start from, in order. -/
def cycleStarts (ticks : Nat → Nat) : (limit done : Nat) → Scripted → List Machine
  | 0, _, _ => []
  | limit + 1, done, s =>
      if s.session.ending.isSome then []
      else s.cycleStart?.toList ++ cycleStarts ticks limit (done + 1) (s.turn (ticks done))

/-- The frames the cycles of a run draw, in order. -/
def drawn (ticks : Nat → Nat) (limit done : Nat) (s : Scripted) : List Frame :=
  (cycleStarts ticks limit done s).filterMap Machine.drawn?

theorem drawn_succ {ticks : Nat → Nat} {s : Scripted} (hgoing : s.session.ending = none)
    (limit done : Nat) :
    drawn ticks (limit + 1) done s =
      (s.cycleStart?.bind Machine.drawn?).toList ++
        drawn ticks limit (done + 1) (s.turn (ticks done)) := by
  simp only [drawn, cycleStarts, hgoing, Option.isSome_none, Bool.false_eq_true, if_false,
    List.filterMap_append]
  cases s.cycleStart? with
  | none => rfl
  | some m => cases h : m.drawn? <;> simp [h]

/-- Nothing is left to be shown once a session has ended, unless its screen failed. -/
def Settled (s : Session) : Prop :=
  s.ending ≠ none → s.machine.display.dirty = false

theorem turns_of_ended {ticks : Nat → Nat} {s : Scripted} (h : s.session.ending ≠ none)
    (limit done : Nat) : turns ticks limit done s = s := by
  cases limit with
  | zero => rfl
  | succ limit => rw [turns, if_pos (Option.isSome_iff_ne_none.mpr h)]

theorem turns_of_going {ticks : Nat → Nat} {s : Scripted} (h : s.session.ending = none)
    (limit done : Nat) :
    turns ticks (limit + 1) done s = turns ticks limit (done + 1) (s.turn (ticks done)) := by
  rw [turns, h, Option.isSome_none, if_neg Bool.false_ne_true]

/-- A turn ends where the showing of the frame ends the session. -/
theorem turn_of_failed {s : Scripted} (h : s.session.refresh.ending ≠ none) (ticks : Nat) :
    s.turn ticks = ⟨s.session.refresh, s.script⟩ := by
  rw [turn]
  exact if_pos (Option.isSome_iff_ne_none.mpr h)

theorem turn_of_shown {s : Scripted} (h : s.session.refresh.ending = none) (ticks : Nat) :
    let polled := poll s.session.refresh.screen.shown.size s.script
    s.turn ticks = ⟨s.session.refresh.respond polled.1 ticks, polled.2⟩ := by
  simp [turn, h]

theorem turn_shows {s : Scripted} {frames : List Frame} (h : s.session.ShowsUpTo frames)
    (hgoing : s.session.ending = none) (ticks : Nat) :
    (s.turn ticks).session.ScreenFailed ∨
      (s.turn ticks).session.ShowsUpTo (frames ++ (s.cycleStart?.bind Machine.drawn?).toList) ∧
        Settled (s.turn ticks).session := by
  rcases h.refresh with ⟨message, hfail⟩ | ⟨hr, hclean, hending⟩
  · left
    exact ⟨message, by rw [turn_of_failed (by simp [hfail]), hfail]⟩
  · right
    have hon : s.session.refresh.ending = none := hending.trans hgoing
    let asked := Session.handleAll (poll s.session.refresh.screen.shown.size s.script).1
      s.session.refresh
    have hturn : (s.turn ticks).session = asked.andThen (·.cycle ticks) :=
      congrArg Scripted.session (turn_of_shown hon ticks)
    have hasked : asked.ShowsUpTo frames := hr.handleAll _
    have hclean' : asked.machine.display.dirty = false := by
      rw [(Session.handleAll_display _ _).1]
      exact hclean
    cases he : asked.ending with
    | some ending =>
      have hstart : s.cycleStart? = none := by
        simp [cycleStart?, hon, asked] at he ⊢
        simp [he]
      rw [hturn, hstart]
      simp only [Session.andThen, he, Option.isSome_some, if_true]
      exact ⟨by simpa using hasked, fun _ => hclean'⟩
    | none =>
      have hstart : s.cycleStart? = some asked.machine := by
        simp [cycleStart?, hon, asked] at he ⊢
        simp [he]
      rw [hturn, hstart]
      simp only [Session.andThen, he, Option.isSome_none, Bool.false_eq_true, if_false]
      exact ⟨hasked.cycle hclean' ticks, Session.clean_of_cycle_ends hclean' he⟩

theorem turns_shows (ticks : Nat → Nat) (limit done : Nat) {s : Scripted} {frames : List Frame}
    (h : s.session.ShowsUpTo frames) (hs : Settled s.session) :
    (turns ticks limit done s).session.ScreenFailed ∨
      (turns ticks limit done s).session.ShowsUpTo (frames ++ drawn ticks limit done s) ∧
        Settled (turns ticks limit done s).session := by
  induction limit generalizing done s frames with
  | zero => exact .inr ⟨by simpa [drawn, cycleStarts, turns] using h, hs⟩
  | succ limit ih =>
    cases he : s.session.ending with
    | some ending =>
      rw [turns_of_ended (by simp [he])]
      exact .inr ⟨by simpa [drawn, cycleStarts, he] using h, hs⟩
    | none =>
      rw [turns_of_going he]
      rcases turn_shows h he (ticks done) with ⟨message, hfail⟩ | ⟨hshows, hsettled⟩
      · left
        rw [turns_of_ended (by simp [hfail])]
        exact ⟨message, hfail⟩
      · rw [drawn_succ he, ← List.append_assoc]
        exact ih (done + 1) hshows hsettled

end Scripted

/-! ## Sessions -/

theorem Screen.shown_openWindow (screen : Screen) (scale : UInt32) :
    (screen.openWindow scale).1.shown = screen.shown := by
  unfold Screen.openWindow
  split <;> rfl

theorem Session.openWindow_display (s : Session) (scale : UInt32) :
    (s.openWindow scale).machine = s.machine ∧
      (s.openWindow scale).screen.shown = s.screen.shown := by
  have hshown := s.screen.shown_openWindow scale
  unfold Session.openWindow
  split
  split <;> exact ⟨rfl, by simp_all [Session.fail]⟩

theorem Session.start_display (settings : CommandLine.Settings)
    (file : Except ReadError (List UInt8)) (screen : Screen) (random : RandomBytes) :
    (Session.start settings file screen random).machine.display = .blank ∧
      (Session.start settings file screen random).screen.shown = screen.shown := by
  cases file with
  | error cause => exact ⟨rfl, rfl⟩
  | ok image =>
    simp only [Session.start]
    cases hf : ((Machine.create settings.config random).load image).fault with
    | some cause => exact ⟨rfl, rfl⟩
    | none =>
      have hsame : Part.display.Same (Machine.create settings.config random)
          ((Machine.create settings.config random).act (.load image)) :=
        Machine.act_same _ _ (by simp [Act.touches])
      rw [Machine.act_load] at hsame
      obtain ⟨hm, hs⟩ := Session.openWindow_display
        { machine := ((Machine.create settings.config random).load image).machine
          screen
          pace := .clocked
          log := (#[Log.Entry.created settings.config].push (.loaded image.length)).push
            (.started settings.rom image.length)
          ending := none } settings.scale
      exact ⟨(congrArg Machine.display hm).trans hsame, hs⟩

open CommandLine (Settings)

/-- A session before its first turn. -/
def Scripted.started (settings : Settings) (file : Except ReadError (List UInt8)) (screen : Screen)
    (random : RandomBytes) (script : List ScriptItem) : Scripted :=
  ⟨Session.start settings file screen random, script⟩

/-- **Every drawn frame is shown, once and in order.** In a session that ended, whether it was asked
to or a cycle failed, and that no failure of the screen cut short: the frames shown are those its
cycles drew, nothing is left to be shown, and the last frame shown is the one on the display. -/
theorem session_shows_drawn (settings : Settings) (file : Except ReadError (List UInt8))
    (fault : Option ScreenFault) (padding : Nat) (random : RandomBytes) (script : List ScriptItem)
    (ticks : Nat → Nat) (limit : Nat) (ending : Ending)
    (hend : (Scripted.run settings file (.fresh fault padding) random script ticks
      limit).session.ending = some ending)
    (hscreen : ∀ message, ending ≠ .failed (.screen message)) :
    let final := (Scripted.run settings file (.fresh fault padding) random script ticks
      limit).session
    final.screen.shown.toList =
        (Scripted.started settings file (.fresh fault padding) random script).drawn ticks limit 0 ∧
      final.machine.display.dirty = false ∧
      final.screen.shown.back?.getD .blank = final.machine.display.frame := by
  intro final
  let start := Scripted.started settings file (.fresh fault padding) random script
  obtain ⟨hdisplay, hshown⟩ :=
    Session.start_display settings file (.fresh fault padding) random
  have hstart : start.session.ShowsUpTo [] :=
    ⟨by simp only [start, Scripted.started, hdisplay, hshown]; rfl,
      by simp only [start, Scripted.started, hdisplay]; rfl⟩
  have hclean : start.session.machine.display.dirty = false := by
    simp only [start, Scripted.started, hdisplay]
    rfl
  have hrun : final.ScreenFailed ∨
      final.ShowsUpTo (start.drawn ticks limit 0) ∧ Scripted.Settled final :=
    Scripted.turns_shows ticks limit 0 hstart fun _ => hclean
  rcases hrun with ⟨message, hfail⟩ | ⟨hshows, hsettled⟩
  · have : some ending = some (.failed (.screen message)) := hend.symm.trans hfail
    exact absurd (Option.some.inj this) (hscreen message)
  · have hdone : final.machine.display.dirty = false := by
      refine hsettled fun hnone => ?_
      cases hend.symm.trans hnone
    have hall := hshows.shown
    rw [Display.pending?, hdone, if_neg Bool.false_ne_true, Option.toList_none,
      List.append_nil] at hall
    have hlast := hshows.last
    rw [← hall, Array.getLast?_toList] at hlast
    exact ⟨hall, hdone, hlast⟩

/-- A program that clears the display and draws one byte of itself, and is asked to end right
afterwards: both frames have been shown. -/
theorem session_shows_drawn_before_quit :
    let settings : Settings := ⟨"game", { preloadFont := false }, 500, 10, .info⟩
    let file := Except.ok [0x00, 0xE0, 0xA2, 0x02, 0xD0, 0x01]
    let final := (Scripted.run settings file (.fresh none 3) (.ofList []) [.quiet 3] (fun _ => 1)
      9).session
    (final.ending = some .closed ∧ final.screen.shown.size = 2) ∧
      final.screen.shown.toList =
        (Scripted.started settings file (.fresh none 3) (.ofList []) [.quiet 3]).drawn
          (fun _ => 1) 9 0 := by
  intro settings file final
  have h : final.ending = some .closed ∧ final.screen.shown.size = 2 := by decide +kernel
  have hscreen : ∀ message, Ending.closed ≠ .failed (.screen message) := by
    intro message hclosed
    cases hclosed
  exact ⟨h, (session_shows_drawn settings file none 3 (.ofList []) [.quiet 3] (fun _ => 1) 9
    .closed h.1 hscreen).1⟩

end Host
end ChipEight
