import ChipEight.Proofs.Drafts
import ChipEight.Proofs.SoundScreen
import Mathlib.Algebra.Group.Nat.Defs

/-!
The size of the window. A session opens its window once, for the size of cells on its command line,
and keeps it. Both sides of the window are products of 32-bit words, while a command line admits all
sizes of cells from one on that are such words: so large cells wrap around
(`accepted_scale_without_width`), and a window is as large as its cells need just up to a bound
(`session_window_fits_below`).
-/
namespace ChipEight.Host

open CommandLine (Settings)

/-! ## Sides -/

/-- A window in which all cells have the size asked for. -/
structure Window.Fits (w : Window) (scale : UInt32) : Prop where
  width : w.width.toNat = Frame.width * scale.toNat
  height : w.height.toNat = Frame.height * scale.toNat

theorem Window.Fits.ne_zero {w : Window} {scale : UInt32} (h : w.Fits scale) (hscale : scale ≠ 0) :
    w.width ≠ 0 ∧ w.height ≠ 0 := by
  have hpos := one_le_toNat hscale
  have hwidth := h.width
  have hheight := h.height
  simp only [Frame.width, Frame.height] at hwidth hheight
  constructor
  · rintro hzero
    rw [hzero, UInt32.toNat_zero] at hwidth
    omega
  · rintro hzero
    rw [hzero, UInt32.toNat_zero] at hheight
    omega

namespace Screen

theorem toNat_width_windowFor (scale : UInt32) :
    (windowFor scale).width.toNat = Frame.width * scale.toNat % 2 ^ 32 :=
  UInt32.toNat_mul 64 scale

theorem toNat_height_windowFor (scale : UInt32) :
    (windowFor scale).height.toNat = Frame.height * scale.toNat % 2 ^ 32 :=
  UInt32.toNat_mul 32 scale

/-- The width is what bounds the size of the cells. -/
theorem fits_windowFor_iff (scale : UInt32) :
    (windowFor scale).Fits scale ↔ scale.toNat < 2 ^ 26 := by
  have hwidth := toNat_width_windowFor scale
  have hheight := toNat_height_windowFor scale
  simp only [Frame.width, Frame.height] at hwidth hheight
  constructor
  · intro h
    have h := h.width
    simp only [Frame.width] at h
    omega
  · intro h
    exact ⟨by simp only [Frame.width]; omega, by simp only [Frame.height]; omega⟩

theorem width_windowFor_eq_zero_iff (scale : UInt32) :
    (windowFor scale).width = 0 ↔ 2 ^ 26 ∣ scale.toNat := by
  have hwidth := toNat_width_windowFor scale
  simp only [Frame.width] at hwidth
  rw [← UInt32.toNat_inj, hwidth, UInt32.toNat_zero]
  omega

theorem height_windowFor_eq_zero_iff (scale : UInt32) :
    (windowFor scale).height = 0 ↔ 2 ^ 27 ∣ scale.toNat := by
  have hheight := toNat_height_windowFor scale
  simp only [Frame.height] at hheight
  rw [← UInt32.toNat_inj, hheight, UInt32.toNat_zero]
  omega

/-! ## The window of a session -/

/-- The stages up to the window. -/
theorem window_openWindow (s : Screen) (scale : UInt32) :
    (s.openWindow scale).1.window =
      if s.firstFailure? [.init, .video, .window] = none then some (windowFor scale)
      else s.window := by
  unfold openWindow
  split
  · rename_i hfailure
    rw [if_neg (by simp [hfailure])]
  · rename_i hfailure
    rw [if_pos hfailure]

end Screen

namespace Session

theorem screen_openWindow (s : Session) (scale : UInt32) :
    (s.openWindow scale).screen = (s.screen.openWindow scale).1 := by
  unfold openWindow
  split
  split <;> simp_all [fail]

/-- A window is opened where the program has been loaded and no stage up to the window fails. -/
theorem window_start (settings : Settings) (file : Except ReadError (List UInt8)) {screen : Screen}
    (hnone : screen.window = none) (random : RandomBytes) :
    (start settings file screen random).screen.window =
      if refusal? settings file = none ∧ screen.firstFailure? [.init, .video, .window] = none then
        some (Screen.windowFor settings.scale)
      else none := by
  cases hrefused : refusal? settings file with
  | some why =>
    rw [(start_of_refused hrefused screen random).1, if_neg (by simp)]
    exact hnone
  | none =>
    obtain ⟨image, rfl, hfits⟩ := fits_of_not_refused hrefused
    rw [(start_of_fits hfits screen random).1, screen_openWindow, Screen.window_openWindow]
    simp only [loaded, hnone, true_and]

theorem window_refresh (s : Session) : s.refresh.screen.window = s.screen.window := by
  cases hdirty : s.machine.display.dirty with
  | false => rw [refresh_of_clean hdirty]
  | true =>
    cases hfailure : s.screen.firstFailure? Stage.showing with
    | some message =>
      rw [refresh_of_failure hdirty hfailure]
      rfl
    | none => rw [refresh_of_shown hdirty hfailure]

theorem screen_respond (s : Session) (events : List Event) (ticks : Nat) :
    (s.respond events ticks).screen = s.screen := by
  have hevents := (handleAll_display events s).2
  rw [respond, andThen]
  split
  · exact hevents
  · exact (cycle_display _ ticks).2.trans hevents

end Session

namespace Scripted

theorem window_turn (s : Scripted) (ticks : Nat) :
    (s.turn ticks).session.screen.window = s.session.screen.window := by
  by_cases hshown : s.session.refresh.ending = none
  · rw [turn_of_shown hshown, Session.screen_respond]
    exact s.session.window_refresh
  · rw [turn_of_failed hshown]
    exact s.session.window_refresh

/-- A session keeps its window. -/
theorem window_turns (ticks : Nat → Nat) (limit done : Nat) (s : Scripted) :
    (turns ticks limit done s).session.screen.window = s.session.screen.window := by
  induction limit generalizing done s with
  | zero => rfl
  | succ limit ih =>
    rw [turns]
    split
    · rfl
    · rw [ih, window_turn]

theorem window_run (settings : Settings) (file : Except ReadError (List UInt8)) {screen : Screen}
    (hnone : screen.window = none) (random : RandomBytes) (script : List ScriptItem)
    (ticks : Nat → Nat) (limit : Nat) :
    (run settings file screen random script ticks limit).session.screen.window =
      if Session.refusal? settings file = none ∧
          screen.firstFailure? [.init, .video, .window] = none then
        some (Screen.windowFor settings.scale)
      else none := by
  rw [run, window_turns]
  exact Session.window_start settings file hnone random

end Scripted

/-- **The window of a session.** For all command lines that are accepted, and whatever the session
they start does: it has a window just if its program is loaded and no stage up to the window fails,
and the sides of the window are what its cells need, but modulo `2 ^ 32`. So the window fits the
size of its cells just if that size is below `2 ^ 26`, and then it has some width and some height.
It has no width where the size is a multiple of `2 ^ 26`, and no height where it is one of
`2 ^ 27`. -/
theorem session_window_fits_below {words : List String} {settings : Settings}
    (haccepted : Settings.parse words = .ok settings) (file : Except ReadError (List UInt8))
    (screen : Screen) (hnone : screen.window = none) (random : RandomBytes)
    (script : List ScriptItem) (ticks : Nat → Nat) (limit : Nat) :
    let window :=
      (Scripted.run settings file screen random script ticks limit).session.screen.window
    (window.isSome ↔ Session.refusal? settings file = none ∧
        screen.firstFailure? [.init, .video, .window] = none) ∧
      ∀ w ∈ window,
        w.width.toNat = Frame.width * settings.scale.toNat % 2 ^ 32 ∧
          w.height.toNat = Frame.height * settings.scale.toNat % 2 ^ 32 ∧
          (w.Fits settings.scale ↔ settings.scale.toNat < 2 ^ 26) ∧
          (w.Fits settings.scale → w.width ≠ 0 ∧ w.height ≠ 0) ∧
          (w.width = 0 ↔ 2 ^ 26 ∣ settings.scale.toNat) ∧
          (w.height = 0 ↔ 2 ^ 27 ∣ settings.scale.toNat) := by
  intro window
  have hwindow : window = _ :=
    Scripted.window_run settings file hnone random script ticks limit
  rw [hwindow]
  refine ⟨by split <;> simp_all, fun w hw => ?_⟩
  obtain ⟨-, hw⟩ := Option.ite_none_right_eq_some.mp hw
  obtain rfl := Option.some.inj hw
  obtain ⟨-, hscale, -⟩ := Settings.accepted_ne_zero haccepted
  exact ⟨Screen.toNat_width_windowFor _, Screen.toNat_height_windowFor _,
    Screen.fits_windowFor_iff _, (·.ne_zero hscale),
    Screen.width_windowFor_eq_zero_iff _, Screen.height_windowFor_eq_zero_iff _⟩

/-- The largest cells that fit. -/
theorem session_window_fits_below_bound :
    let words := ["g", "--scale", "67108863"]
    let settings : Settings := ⟨"g", {}, 500, 67108863, .info⟩
    let window :=
      (Scripted.run settings (.ok [0x12, 0x00]) (.fresh none 0) (.ofList []) [] (fun _ => 0)
        3).session.screen.window
    Settings.parse words = .ok settings ∧ (Screen.fresh none 0).window = none ∧
      ∃ w ∈ window, w.Fits settings.scale ∧ w.width ≠ 0 ∧ w.height ≠ 0 := by
  intro words settings window
  have haccepted : Settings.parse words = .ok settings := by decide +kernel
  obtain ⟨hopened, hsides⟩ :=
    session_window_fits_below haccepted (.ok [0x12, 0x00]) (.fresh none 0) rfl (.ofList []) []
      (fun _ => 0) 3
  obtain ⟨w, hw⟩ := Option.isSome_iff_exists.mp (hopened.mpr ⟨by decide, by decide⟩)
  obtain ⟨-, -, hfits, hsize, -⟩ := hsides w hw
  have hw := hfits.mpr (by decide)
  exact ⟨haccepted, rfl, w, ‹_›, hw, hsize hw⟩

/-- Cells of this size are accepted, and the window for them has no width. -/
theorem accepted_scale_without_width :
    ∃ settings : Settings,
      Settings.parse ["g", "--scale", "67108864", "--clock-hz=4294967295"] = .ok settings ∧
        ¬ (Screen.windowFor settings.scale).Fits settings.scale ∧
        (Scripted.run settings (.ok [0x12, 0x00]) (.fresh none 0) (.ofList []) [] (fun _ => 0)
          3).session.screen.window = some ⟨"Chippy", 0, 2147483648⟩ := by
  refine ⟨⟨"g", {}, 4294967295, 67108864, .info⟩, by decide +kernel, ?_, ?_⟩
  · rw [Screen.fits_windowFor_iff]
    decide
  · rw [Scripted.window_run _ _ rfl, if_pos ⟨by decide, by decide⟩]
    rfl

end ChipEight.Host
