import ChipEight.Proofs.Deeds

/-!
Screens that do not fail. A session whose screen does not fail comes through its start if its
program fits, and shows every frame it has to show. As it goes on it has shown more and noted more,
and it says that it was closed only at its end.
-/
namespace ChipEight.Host

/-! ## Calls -/

namespace Screen
variable {s : Screen}

theorem failure?_of_none (h : s.fault = none) (stage : Stage) : s.failure? stage = none := by
  rw [failure?, h]
  rfl

theorem firstFailure?_of_none (h : s.fault = none) (stages : List Stage) :
    s.firstFailure? stages = none :=
  List.findSome?_eq_none_iff.mpr fun stage _ => failure?_of_none h stage

theorem mem_calls (h : s.fault = none) {stage : Stage} {shown : Nat} {stages : List Stage} :
    Deed.call stage shown ∈ s.calls stages ↔ stage ∈ stages ∧ shown = s.shown.size := by
  induction stages with
  | nil => simp [calls]
  | cons first rest ih =>
    rw [calls, failure?_of_none h, Option.isSome_none, if_neg Bool.false_ne_true, List.mem_cons, ih,
      Deed.call.injEq, List.mem_cons, or_and_right]

theorem openWindow_of_none (h : s.fault = none) (scale : UInt32) :
    s.openWindow scale = ({ s with window := some (windowFor scale) }, none) := by
  have h' : ({ s with window := some (windowFor scale) } : Screen).fault = none := h
  rw [openWindow, firstFailure?_of_none h]
  dsimp only
  rw [firstFailure?_of_none h']

end Screen

namespace Session
variable {s : Session}

theorem refreshDeeds_of_dirty (h : s.screen.fault = none) (hdirty : s.machine.display.dirty = true) :
    s.refreshDeeds = s.screen.calls Stage.showing ++ [.ask .acknowledge] := by
  rw [refreshDeeds, if_pos hdirty, Screen.firstFailure?_of_none h]
  rfl

theorem refreshDeeds_of_clean (hclean : s.machine.display.dirty = false) : s.refreshDeeds = [] := by
  rw [refreshDeeds, hclean]
  rfl

theorem going_refresh (h : s.screen.fault = none) (hgoing : s.ending = none) :
    s.refresh.ending = none := by
  cases hdirty : s.machine.display.dirty with
  | false => rwa [refresh_of_clean hdirty]
  | true => rwa [refresh_of_shown hdirty (Screen.firstFailure?_of_none h _)]

/-! ## Sessions that go on -/

/-- A session later on: it has the same screen, which has shown more, and has noted more. -/
structure Extends (s t : Session) : Prop where
  fault : t.screen.fault = s.screen.fault
  shown : s.screen.shown.toList <+: t.screen.shown.toList
  log : s.log.toList <+: t.log.toList

theorem Extends.refl (s : Session) : s.Extends s :=
  ⟨rfl, List.prefix_rfl, List.prefix_rfl⟩

theorem Extends.trans {t u : Session} (h : s.Extends t) (h' : t.Extends u) : s.Extends u :=
  ⟨h'.fault.trans h.fault, h.shown.trans h'.shown, h.log.trans h'.log⟩

theorem Extends.of_screen {t : Session} (hscreen : t.screen = s.screen)
    (hlog : s.log.toList <+: t.log.toList) : s.Extends t :=
  ⟨congrArg Screen.fault hscreen, by simp [hscreen], hlog⟩

theorem refresh_extends (s : Session) : s.Extends s.refresh := by
  cases hdirty : s.machine.display.dirty with
  | false =>
    rw [refresh_of_clean hdirty]
    exact .refl s
  | true =>
    cases hf : s.screen.firstFailure? Stage.showing with
    | some message =>
      rw [refresh_of_failure hdirty hf]
      exact .of_screen rfl List.prefix_rfl
    | none =>
      rw [refresh_of_shown hdirty hf]
      refine ⟨rfl, ?_, List.prefix_rfl⟩
      rw [Array.toList_push]
      exact List.prefix_append _ _

theorem log_cycle (s : Session) (ticks : Nat) :
    (s.cycle ticks).log = s.log ++ s.machine.stepLog := by
  rw [cycle]
  cases s.machine.step.fault <;> rfl

theorem respond_extends (events : List Event) (hgoing : s.ending = none) (ticks : Nat) :
    s.Extends (s.respond events ticks) := by
  obtain ⟨-, -, hlog⟩ := handleAll_asks events hgoing
  have hevents : s.Extends (handleAll events s) := by
    refine .of_screen (handleAll_display events s).2 ?_
    rw [hlog]
    split
    · rw [Array.toList_push]
      exact List.prefix_append _ _
    · exact List.prefix_rfl
  rw [respond, andThen]
  split
  · exact hevents
  · refine hevents.trans (.of_screen (cycle_display _ ticks).2 ?_)
    rw [log_cycle, Array.toList_appendList]
    exact List.prefix_append _ _

end Session

namespace Scripted
variable {s : Scripted}

/-- A turn of a session whose screen does not fail. -/
theorem turn_of_none (h : s.session.screen.fault = none) (hgoing : s.session.ending = none)
    (ticks : Nat) :
    let shown := s.session.refresh
    let polled := poll shown.screen.shown.size s.script
    s.turn ticks = ⟨shown.respond polled.1 ticks, polled.2⟩ ∧
      s.turnDeeds ticks = s.session.refreshDeeds ++ shown.respondDeeds polled.1 ticks := by
  have hon := Session.going_refresh h hgoing
  exact ⟨turn_of_shown hon ticks, by simp [turnDeeds, hon]⟩

theorem turn_extends (h : s.session.screen.fault = none) (hgoing : s.session.ending = none)
    (ticks : Nat) : s.session.Extends (s.turn ticks).session := by
  rw [(turn_of_none h hgoing ticks).1]
  exact s.session.refresh_extends.trans
    (Session.respond_extends _ (Session.going_refresh h hgoing) ticks)

theorem turns_extends (ticks : Nat → Nat) (limit done : Nat) (h : s.session.screen.fault = none) :
    s.session.Extends (turns ticks limit done s).session := by
  induction limit generalizing done s with
  | zero => exact .refl _
  | succ limit ih =>
    cases hending : s.session.ending with
    | some ending =>
      rw [turns_of_ended (by simp [hending])]
      exact .refl _
    | none =>
      have hturn := turn_extends h hending (ticks done)
      rw [turns_of_going hending]
      exact hturn.trans (ih (done + 1) (hturn.fault.trans h))

/-- A session that goes on has not said that it was closed. -/
theorem unclosed_turn (hgoing : s.session.ending = none) (hopen : .closed ∉ s.session.log)
    {ticks : Nat} (hon : (s.turn ticks).session.ending = none) :
    .closed ∉ (s.turn ticks).session.log := by
  have hdrives : s.Drives ⟨s.session.machine, s.session.screen.shown.size, s.script⟩ :=
    ⟨⟨hgoing, rfl, rfl, hopen⟩, rfl⟩
  rcases hdrives.turn ticks with ⟨message, hfail⟩ | ⟨-, hnext⟩ | hends
  · cases hon.symm.trans hfail
  · exact hnext.session.unclosed
  · exact absurd hon hends.ended

end Scripted

/-! ## The start -/

open CommandLine (Settings)

namespace Session
variable {s : Session} {screen : Screen} {scale : UInt32}

theorem openWindow_of_some {message : String} (h : (s.screen.openWindow scale).2 = some message) :
    (s.openWindow scale).ending = some (.failed (.screen message)) := by
  simp [openWindow, h, fail]

theorem openWindow_of_none (h : (s.screen.openWindow scale).2 = none) :
    s.openWindow scale = { s with screen := (s.screen.openWindow scale).1 } := by
  simp [openWindow, h]

theorem sound_start (settings : Settings) (file : Except ReadError (List UInt8))
    (random : RandomBytes) (h : screen.fault = none) :
    (start settings file screen random).screen.fault = none ∧
      .closed ∉ (start settings file screen random).log := by
  cases hrefused : refusal? settings file with
  | some why =>
    rw [(start_of_refused hrefused screen random).1]
    exact ⟨h, by simp⟩
  | none =>
    obtain ⟨image, rfl, hfits⟩ := fits_of_not_refused hrefused
    have hopened := Screen.openWindow_of_none h settings.scale
    rw [(start_of_fits hfits screen random).1,
      openWindow_of_none (s := loaded settings image screen random) (congrArg Prod.snd hopened)]
    exact ⟨(congrArg (fun opened : Screen × _ => opened.1.fault) hopened).trans h, by simp [loaded]⟩

end Session
end ChipEight.Host
