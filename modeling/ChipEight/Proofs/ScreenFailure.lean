import ChipEight.Proofs.SoundScreen

/-!
Screens that fail. A session makes the same calls of its screen, polls and requests whether or not a
stage will fail later on, since the screen is not looked at in any other way. So a session whose
screen fails is the session whose screen does not, cut off at the call that fails: its deeds are
those up to that call (`upTo`), and what it has shown and noted is the beginning of what the other
shows and notes (`Session.CutOff`).
-/
namespace ChipEight.Host

/-! ## Lists that are cut off -/

section
variable {α : Type} [DecidableEq α] {a : α} {as : List α}

/-- A list up to the first place where an element stands, and with that place. -/
def upTo (a : α) : List α → List α
  | [] => []
  | b :: rest => b :: if b = a then [] else upTo a rest

theorem upTo_append_of_not_mem (h : a ∉ as) (more : List α) :
    upTo a (as ++ more) = as ++ upTo a more := by
  induction as with
  | nil => rfl
  | cons b rest ih =>
    rw [List.mem_cons, not_or] at h
    rw [List.cons_append, upTo, if_neg (Ne.symm h.1), ih h.2, List.cons_append]

theorem upTo_of_not_mem (h : a ∉ as) : upTo a as = as := by
  simpa [upTo] using upTo_append_of_not_mem h []

theorem upTo_append_cons (h : a ∉ as) (more : List α) : upTo a (as ++ a :: more) = as ++ [a] := by
  rw [upTo_append_of_not_mem h, upTo, if_pos rfl]

theorem upTo_append_of_mem (h : a ∈ as) (more : List α) : upTo a (as ++ more) = upTo a as := by
  obtain ⟨before, behind, rfl, hbefore⟩ := List.eq_append_cons_of_mem h
  rw [List.append_assoc, List.cons_append, upTo_append_cons hbefore, upTo_append_cons hbefore]

end

/-! ## The screen -/

/-- The call that fails. -/
def ScreenFault.call (f : ScreenFault) : Deed :=
  .call f.stage f.after

namespace Screen
variable {s : Screen} {f : ScreenFault}

/-- The same screen, with a stage that fails. -/
def withFault (s : Screen) (f : ScreenFault) : Screen :=
  { s with fault := some f }

theorem failure?_withFault (s : Screen) (f : ScreenFault) (stage : Stage) :
    (s.withFault f).failure? stage =
      if Deed.call stage s.shown.size = f.call then some f.message else none := by
  refine if_congr ?_ rfl rfl
  rw [ScreenFault.call, Deed.call.injEq, eq_comm, @eq_comm _ f.after]
  rfl

/-- The calls of a screen with a stage that fails end there. -/
theorem calls_withFault (h : s.fault = none) (stages : List Stage) :
    (s.withFault f).calls stages = upTo f.call (s.calls stages) := by
  induction stages with
  | nil => rfl
  | cons stage rest ih =>
    rw [calls, calls, failure?_withFault, failure?_of_none h, upTo, ih]
    by_cases hcall : Deed.call stage s.shown.size = f.call <;> simp [hcall, withFault]

theorem firstFailure?_withFault (h : s.fault = none) (stages : List Stage) :
    (s.withFault f).firstFailure? stages =
      if f.call ∈ s.calls stages then some f.message else none := by
  induction stages with
  | nil => rfl
  | cons stage rest ih =>
    rw [firstFailure?, List.findSome?_cons, failure?_withFault, calls, failure?_of_none h,
      Option.isSome_none, if_neg Bool.false_ne_true]
    by_cases hcall : Deed.call stage s.shown.size = f.call
    · rw [if_pos hcall, if_pos (by rw [hcall]; exact List.mem_cons_self)]
    · rw [if_neg hcall]
      refine ih.trans (if_congr ?_ rfl rfl)
      rw [List.mem_cons, or_iff_right (Ne.symm hcall)]

end Screen

/-! ## Sessions -/

namespace Session
variable {s : Session} {f : ScreenFault}

/-- The same session, with a stage of its screen that fails. -/
def withFault (s : Session) (f : ScreenFault) : Session :=
  { s with screen := s.screen.withFault f }

theorem handle_withFault (s : Session) (f : ScreenFault) (event : Event) :
    (s.withFault f).handle event = (s.handle event).withFault f := by
  cases hcloses : event.closes with
  | true =>
    rw [handle_of_closes hcloses, handle_of_closes hcloses]
    rfl
  | false =>
    rw [handle_of_not_closes hcloses, handle_of_not_closes hcloses]
    rfl

theorem andThen_withFault {g : Session → Session}
    (hg : ∀ s, g (s.withFault f) = (g s).withFault f) (s : Session) :
    (s.withFault f).andThen g = (s.andThen g).withFault f := by
  rw [andThen, andThen, hg, apply_ite (fun s : Session => s.withFault f)]
  rfl

theorem handleAll_withFault (events : List Event) (s : Session) :
    handleAll events (s.withFault f) = (handleAll events s).withFault f := by
  induction events generalizing s with
  | nil => rfl
  | cons event rest ih =>
    rw [handleAll, handle_withFault]
    exact andThen_withFault ih _

theorem cycle_withFault (s : Session) (ticks : Nat) :
    (s.withFault f).cycle ticks = (s.cycle ticks).withFault f := by
  simp only [cycle, withFault]
  cases s.machine.step.fault <;> rfl

theorem respond_withFault (s : Session) (events : List Event) (ticks : Nat) :
    (s.withFault f).respond events ticks = (s.respond events ticks).withFault f := by
  rw [respond, handleAll_withFault]
  exact andThen_withFault (fun s => s.cycle_withFault ticks) _

theorem respondDeeds_withFault (s : Session) (events : List Event) (ticks : Nat) :
    (s.withFault f).respondDeeds events ticks = s.respondDeeds events ticks := by
  rw [respondDeeds, handleAll_withFault]
  rfl

theorem call_not_mem_respondDeeds (s : Session) (events : List Event) (ticks : Nat) :
    f.call ∉ s.respondDeeds events ticks := by
  simp only [respondDeeds, ScreenFault.call]
  split
  · simp
  · split <;> simp

/-! ### Frames -/

/-- The screen fails if the call that fails is made for a frame. -/
theorem call_mem_refreshDeeds (h : s.screen.fault = none) :
    f.call ∈ s.refreshDeeds ↔
      s.machine.display.dirty = true ∧ f.call ∈ s.screen.calls Stage.showing := by
  cases hdirty : s.machine.display.dirty with
  | false => simp [refreshDeeds_of_clean hdirty]
  | true =>
    rw [refreshDeeds_of_dirty h hdirty, List.mem_append, List.mem_singleton]
    simp [ScreenFault.call]

theorem refreshDeeds_withFault (h : s.screen.fault = none) :
    (s.withFault f).refreshDeeds = upTo f.call s.refreshDeeds := by
  cases hdirty : s.machine.display.dirty with
  | false =>
    rw [refreshDeeds_of_clean hdirty, refreshDeeds_of_clean (s := s.withFault f) hdirty]
    rfl
  | true =>
    have hdirty' : (s.withFault f).machine.display.dirty = true := hdirty
    have hfail : (s.withFault f).screen.firstFailure? Stage.showing = _ :=
      Screen.firstFailure?_withFault h Stage.showing
    have hcalls : (s.withFault f).screen.calls Stage.showing = _ :=
      Screen.calls_withFault h Stage.showing
    rw [refreshDeeds_of_dirty h hdirty, refreshDeeds, if_pos hdirty', hfail, hcalls]
    by_cases hmem : f.call ∈ s.screen.calls Stage.showing
    · rw [upTo_append_of_mem hmem, if_pos hmem]
      exact List.append_nil _
    · rw [upTo_append_of_not_mem hmem, upTo_of_not_mem hmem, if_neg hmem]
      rfl

theorem refresh_withFault_of_mem (h : s.screen.fault = none) (hf : f.call ∈ s.refreshDeeds) :
    (s.withFault f).refresh = (s.withFault f).fail (.screen f.message) := by
  obtain ⟨hdirty, hmem⟩ := (call_mem_refreshDeeds h).mp hf
  exact refresh_of_failure (s := s.withFault f) hdirty
    ((Screen.firstFailure?_withFault h _).trans (if_pos hmem))

theorem refresh_withFault_of_not_mem (h : s.screen.fault = none)
    (hf : f.call ∉ s.refreshDeeds) : (s.withFault f).refresh = s.refresh.withFault f := by
  cases hdirty : s.machine.display.dirty with
  | false => rw [refresh_of_clean hdirty, refresh_of_clean (s := s.withFault f) hdirty]
  | true =>
    have hmem : f.call ∉ s.screen.calls Stage.showing := fun hmem =>
      hf ((call_mem_refreshDeeds h).mpr ⟨hdirty, hmem⟩)
    have hshown : (s.withFault f).screen.firstFailure? Stage.showing = none :=
      (Screen.firstFailure?_withFault h _).trans (if_neg hmem)
    rw [refresh_of_shown hdirty (Screen.firstFailure?_of_none h _),
      refresh_of_shown (s := s.withFault f) hdirty hshown]
    rfl

/-- A session that a stage of its screen has ended, next to one whose screen has not failed. -/
structure CutOff (f : ScreenFault) (cut whole : Session) : Prop where
  ending : cut.ending = some (.failed (.screen f.message))
  shown : cut.screen.shown.toList <+: whole.screen.shown.toList
  count : cut.screen.shown.size = f.after
  log : cut.log.toList <+: whole.log.toList
  unclosed : .closed ∉ cut.log
  /-- The frame that could not be shown stays to be shown. -/
  pending : f.stage ∈ Stage.showing → cut.machine.display.dirty = true

theorem CutOff.extend {cut t : Session} (h : CutOff f cut s) (h' : s.Extends t) :
    CutOff f cut t :=
  ⟨h.ending, h.shown.trans h'.shown, h.count, h.log.trans h'.log, h.unclosed, h.pending⟩

/-- A session is cut off where the showing of its frame fails. -/
theorem cutOff_refresh (h : s.screen.fault = none) (hopen : .closed ∉ s.log)
    (hf : f.call ∈ s.refreshDeeds) : ((s.withFault f).fail (.screen f.message)).CutOff f s := by
  obtain ⟨hdirty, hcall⟩ := (call_mem_refreshDeeds h).mp hf
  exact ⟨rfl, List.prefix_rfl, ((Screen.mem_calls h).mp hcall).2.symm, List.prefix_rfl, hopen,
    fun _ => hdirty⟩

end Session

/-! ## Turns -/

namespace Scripted
variable {s : Scripted} {f : ScreenFault}

/-- The same session, with a stage of its screen that fails. -/
def withFault (s : Scripted) (f : ScreenFault) : Scripted :=
  { s with session := s.session.withFault f }

theorem call_mem_turnDeeds (h : s.session.screen.fault = none) (hgoing : s.session.ending = none)
    (ticks : Nat) : f.call ∈ s.turnDeeds ticks ↔ f.call ∈ s.session.refreshDeeds := by
  rw [(turn_of_none h hgoing ticks).2, List.mem_append,
    or_iff_left (s.session.refresh.call_not_mem_respondDeeds _ ticks)]

theorem turn_withFault_of_mem (h : s.session.screen.fault = none)
    (hf : f.call ∈ s.session.refreshDeeds) (ticks : Nat) :
    (s.withFault f).turn ticks =
        ⟨(s.session.withFault f).fail (.screen f.message), s.script⟩ ∧
      (s.withFault f).turnDeeds ticks = upTo f.call s.session.refreshDeeds := by
  simp [turn, turnDeeds, withFault, Session.refresh_withFault_of_mem h hf,
    Session.refreshDeeds_withFault h, Session.fail]

theorem turn_withFault_of_not_mem (h : s.session.screen.fault = none)
    (hgoing : s.session.ending = none) (hf : f.call ∉ s.session.refreshDeeds) (ticks : Nat) :
    (s.withFault f).turn ticks = (s.turn ticks).withFault f ∧
      (s.withFault f).turnDeeds ticks = s.turnDeeds ticks := by
  obtain ⟨hturn, hturnDeeds⟩ := turn_of_none h hgoing ticks
  have hon : (s.session.refresh.withFault f).ending = none := Session.going_refresh h hgoing
  rw [hturn, hturnDeeds]
  simp only [turn, turnDeeds, withFault, Session.refresh_withFault_of_not_mem h hf,
    Session.refreshDeeds_withFault h, upTo_of_not_mem hf, hon, Session.respond_withFault,
    Session.respondDeeds_withFault]
  exact ⟨rfl, rfl⟩

/-- The turns of a session with a stage of its screen that fails, next to those of the session whose
screen does not fail: the same, or cut off. -/
theorem turns_withFault (f : ScreenFault) (ticks : Nat → Nat) (limit done : Nat)
    (h : s.session.screen.fault = none) (hopen : s.session.ending = none → .closed ∉ s.session.log) :
    let whole := turns ticks limit done s
    let cut := turns ticks limit done (s.withFault f)
    deeds ticks limit done (s.withFault f) = upTo f.call (deeds ticks limit done s) ∧
      (f.call ∉ deeds ticks limit done s → cut = whole.withFault f) ∧
      (f.call ∈ deeds ticks limit done s → cut.session.CutOff f whole.session) := by
  induction limit generalizing done s with
  | zero => exact ⟨rfl, fun _ => rfl, fun hmem => by cases hmem⟩
  | succ limit ih =>
    cases hending : s.session.ending with
    | some ending =>
      have hended : s.session.ending ≠ none := by simp [hending]
      have hended' : (s.withFault f).session.ending ≠ none := hended
      rw [turns_of_ended hended, turns_of_ended hended', deeds_of_ended hended,
        deeds_of_ended hended']
      exact ⟨rfl, fun _ => rfl, fun hmem => by cases hmem⟩
    | none =>
      have hending' : (s.withFault f).session.ending = none := hending
      have hextends := turn_extends h hending (ticks done)
      have hfault := hextends.fault.trans h
      rw [turns_of_going hending, turns_of_going hending', deeds_of_going hending,
        deeds_of_going hending']
      have hmem := call_mem_turnDeeds (f := f) h hending (ticks done)
      by_cases hf : f.call ∈ s.session.refreshDeeds
      · -- The turn is cut off, and no other turn follows it.
        obtain ⟨hturn, hturnDeeds⟩ := turn_withFault_of_mem h hf (ticks done)
        have hended : ((s.withFault f).turn (ticks done)).session.ending ≠ none := by
          rw [hturn]
          exact Option.some_ne_none _
        have hcut : upTo f.call (s.turnDeeds (ticks done)) = upTo f.call s.session.refreshDeeds := by
          rw [(turn_of_none h hending _).2, upTo_append_of_mem hf]
        rw [turns_of_ended hended, deeds_of_ended hended, List.append_nil,
          upTo_append_of_mem (hmem.mpr hf), hturnDeeds, hcut, hturn]
        refine ⟨rfl, fun hnot => ?_, fun _ => ?_⟩
        · exact absurd (List.mem_append_left _ (hmem.mpr hf)) hnot
        · exact (Session.cutOff_refresh h (hopen hending) hf).extend
            (hextends.trans (turns_extends ticks limit (done + 1) hfault))
      · -- The turn is the same, and so are the others up to the call that fails.
        obtain ⟨hturn, hturnDeeds⟩ := turn_withFault_of_not_mem h hending hf (ticks done)
        have hnot : f.call ∉ s.turnDeeds (ticks done) := mt hmem.mp hf
        rw [hturn, hturnDeeds, upTo_append_of_not_mem hnot, List.mem_append, or_iff_right hnot]
        obtain ⟨hdeeds, hrest⟩ :=
          ih (done + 1) hfault (unclosed_turn hending (hopen hending))
        exact ⟨by rw [hdeeds], hrest⟩

end Scripted

/-! ## The start -/

theorem Stage.not_mem_showing {stage : Stage} (h : stage ∈ opening) : stage ∉ showing := by
  cases stage <;> simp [opening, showing] at h ⊢

open CommandLine (Settings)

/-- A window fails to open if one of its calls is the one that fails. -/
theorem Screen.openWindow_withFault {s : Screen} (f : ScreenFault) (h : s.fault = none)
    (scale : UInt32) :
    (f.call ∈ s.calls Stage.opening → ((s.withFault f).openWindow scale).2 = some f.message) ∧
      (f.call ∉ s.calls Stage.opening →
        (s.withFault f).openWindow scale = ((s.openWindow scale).1.withFault f, none)) := by
  let s' : Screen := { s with window := some (windowFor scale) }
  have h' : s'.fault = none := h
  have hsplit : f.call ∈ s.calls Stage.opening ↔
      f.call ∈ s.calls [.init, .video, .window] ∨ f.call ∈ s'.calls [.canvas, .events] := by
    rw [ScreenFault.call, mem_calls h, mem_calls h, mem_calls h', ← or_and_right,
      ← List.mem_append]
    rfl
  rw [openWindow_of_none h, openWindow, firstFailure?_withFault h, hsplit]
  by_cases hfirst : f.call ∈ s.calls [.init, .video, .window]
  · simp [hfirst]
  · have hthen : ({ s.withFault f with window := some (windowFor scale) } : Screen).firstFailure?
        [.canvas, .events] = _ := firstFailure?_withFault h' [.canvas, .events]
    rw [if_neg hfirst]
    dsimp only
    rw [hthen]
    by_cases hsecond : f.call ∈ s'.calls [.canvas, .events]
    · simp [hsecond]
    · rw [if_neg hsecond]
      exact ⟨fun hmem => absurd hmem (by simp [hfirst, hsecond]), fun _ => rfl⟩

namespace Session
variable {settings : Settings} {file : Except ReadError (List UInt8)} {image : List UInt8}
  {screen : Screen} {random : RandomBytes} {f : ScreenFault}

theorem openWindow_withFault {s : Session} (h : s.screen.fault = none)
    (hf : f.call ∉ s.screen.calls Stage.opening) (scale : UInt32) :
    (s.withFault f).openWindow scale = (s.openWindow scale).withFault f := by
  have hopened : (s.withFault f).screen.openWindow scale =
      ((s.screen.openWindow scale).1.withFault f, none) :=
    (Screen.openWindow_withFault f h scale).2 hf
  have hopened' : (s.screen.openWindow scale).2 = none := by rw [Screen.openWindow_of_none h]
  rw [openWindow_of_none (congrArg Prod.snd hopened), openWindow_of_none hopened', hopened]
  rfl

/-- A session is cut off where its window fails to open. -/
theorem cutOff_openWindow {s : Session} (h : s.screen.fault = none) (hopen : .closed ∉ s.log)
    (hf : f.call ∈ s.screen.calls Stage.opening) (scale : UInt32) :
    ((s.withFault f).openWindow scale).CutOff f (s.openWindow scale) := by
  obtain ⟨hstage, hcount⟩ := (Screen.mem_calls h).mp hf
  obtain ⟨-, hshown⟩ := (s.withFault f).openWindow_display scale
  obtain ⟨-, hshown'⟩ := s.openWindow_display scale
  refine ⟨openWindow_of_some ((Screen.openWindow_withFault f h scale).1 hf), ?_, ?_, ?_, ?_,
    fun hshowing => absurd hshowing (Stage.not_mem_showing hstage)⟩
  · rw [hshown, hshown']
    exact List.prefix_rfl
  · rw [hshown]
    exact hcount.symm
  · rw [openWindow_log, openWindow_log]
    exact List.prefix_rfl
  · rw [openWindow_log]
    exact hopen

/-- The start of a session with a stage of its screen that fails: the same, or cut off. -/
theorem start_withFault (settings : Settings) (file : Except ReadError (List UInt8))
    (random : RandomBytes) (f : ScreenFault) (h : screen.fault = none) :
    let deeds := startDeeds settings file screen random
    let whole := start settings file screen random
    let cut := start settings file (screen.withFault f) random
    startDeeds settings file (screen.withFault f) random = upTo f.call deeds ∧
      (f.call ∉ deeds → cut = whole.withFault f) ∧ (f.call ∈ deeds → cut.CutOff f whole) := by
  dsimp only
  cases hrefused : refusal? settings file with
  | some why =>
    obtain ⟨hstart, hdeeds⟩ := start_of_refused hrefused screen random
    obtain ⟨hstart', hdeeds'⟩ := start_of_refused hrefused (screen.withFault f) random
    have hnot : f.call ∉ (file.toOption.map fun image => Deed.ask (.load image)).toList := by
      cases file <;> simp [ScreenFault.call, Except.toOption]
    rw [hstart, hstart', hdeeds, hdeeds', upTo_of_not_mem hnot]
    exact ⟨rfl, fun _ => rfl, fun hmem => absurd hmem hnot⟩
  | none =>
    obtain ⟨image, rfl, hfits⟩ := fits_of_not_refused hrefused
    obtain ⟨hstart, hdeeds⟩ := start_of_fits hfits screen random
    obtain ⟨hstart', hdeeds'⟩ := start_of_fits hfits (screen.withFault f) random
    have hload : f.call ≠ .ask (.load image) := by simp [ScreenFault.call]
    rw [hstart, hstart', hdeeds, hdeeds', Screen.calls_withFault h, upTo, if_neg hload.symm,
      List.mem_cons, or_iff_right hload]
    let s := loaded settings image screen random
    have hopen : .closed ∉ s.log := by simp [s, loaded]
    exact ⟨rfl, fun hnot => openWindow_withFault (s := s) h hnot settings.scale,
      fun hmem => cutOff_openWindow (s := s) h hopen hmem settings.scale⟩

end Session

/-! ## Sessions from their start -/

open Session (CutOff)

namespace Scripted

/-- A session with a stage of its screen that fails: the same, or cut off. -/
theorem run_withFault (settings : Settings) (file : Except ReadError (List UInt8)) {screen : Screen}
    (random : RandomBytes) (script : List ScriptItem) (ticks : Nat → Nat) (limit : Nat)
    (f : ScreenFault) (h : screen.fault = none) :
    let deeds := runDeeds settings file screen random script ticks limit
    let whole := run settings file screen random script ticks limit
    let cut := run settings file (screen.withFault f) random script ticks limit
    runDeeds settings file (screen.withFault f) random script ticks limit = upTo f.call deeds ∧
      (f.call ∉ deeds → cut = whole.withFault f) ∧
      (f.call ∈ deeds → cut.session.CutOff f whole.session) := by
  obtain ⟨hfault, hopen⟩ := Session.sound_start settings file random h
  obtain ⟨hdeeds, hsame, hcut⟩ := Session.start_withFault settings file random f h
  obtain ⟨hdeeds', hsame', hcut'⟩ :=
    turns_withFault (s := started settings file screen random script) f ticks limit 0 hfault
      fun _ => hopen
  dsimp only [run, runDeeds]
  rw [hdeeds]
  by_cases hmem : f.call ∈ Session.startDeeds settings file screen random
  · -- The window fails to open, and no turn follows.
    have hcutOff := hcut hmem
    have hended : (started settings file (screen.withFault f) random script).session.ending ≠
        none := by
      rw [started, hcutOff.ending]
      exact Option.some_ne_none _
    rw [deeds_of_ended hended, List.append_nil, upTo_append_of_mem hmem]
    refine ⟨rfl, fun hnot => absurd (List.mem_append_left _ hmem) hnot, fun _ => ?_⟩
    rw [← started, turns_of_ended hended]
    exact hcutOff.extend
      (turns_extends (s := started settings file screen random script) ticks limit 0 hfault)
  · have hstart : started settings file (screen.withFault f) random script =
        (started settings file screen random script).withFault f := by
      rw [started, hsame hmem]
      rfl
    rw [upTo_of_not_mem hmem, upTo_append_of_not_mem hmem, List.mem_append, or_iff_right hmem,
      hstart, hdeeds', ← started, hstart]
    exact ⟨rfl, hsame', hcut'⟩

/-- A session whose program is refused comes to no turn. -/
theorem run_of_refused {settings : Settings} {file : Except ReadError (List UInt8)} {why : Failure}
    (h : Session.refusal? settings file = some why) (screen : Screen) (random : RandomBytes)
    (script : List ScriptItem) (ticks : Nat → Nat) (limit : Nat) :
    run settings file screen random script ticks limit =
        ⟨⟨Machine.create settings.config random, screen, .clocked, #[.created settings.config],
          some (.failed why)⟩, script⟩ ∧
      runDeeds settings file screen random script ticks limit =
        (file.toOption.map fun image => Deed.ask (.load image)).toList := by
  obtain ⟨hstart, hdeeds⟩ := Session.start_of_refused h screen random
  have hended : (started settings file screen random script).session.ending ≠ none := by
    rw [started, hstart]
    exact Option.some_ne_none _
  rw [run, runDeeds, hdeeds, deeds_of_ended hended, List.append_nil]
  exact ⟨(turns_of_ended hended limit 0).trans (by rw [started, hstart]), rfl⟩

end Scripted

/-- **A screen that fails cuts a session off.** If the session whose screen does not fail makes the
call that fails, then the session whose screen fails does the same up to that call and nothing after
it. It ends with the message of the failure; it has shown the first frames of the other, as many as
the failure says, and the frame that could not be shown stays to be shown; its log is the beginning
of the other's, and does not say that the session was closed. If the call is not made, the two
sessions do and come to the same. A program that cannot be read or is too large is refused before
any of this: the screen is not called, nothing is polled and no cycle runs. -/
theorem screen_failure_cuts_off (settings : Settings) (file : Except ReadError (List UInt8))
    (f : ScreenFault) (padding : Nat) (random : RandomBytes) (script : List ScriptItem)
    (ticks : Nat → Nat) (limit : Nat) :
    let whole := Scripted.run settings file (.fresh none padding) random script ticks limit
    let deeds := Scripted.runDeeds settings file (.fresh none padding) random script ticks limit
    let cut := Scripted.run settings file (.fresh (some f) padding) random script ticks limit
    let deeds' :=
      Scripted.runDeeds settings file (.fresh (some f) padding) random script ticks limit
    (f.call ∈ deeds → ∃ before behind, deeds = before ++ f.call :: behind ∧ f.call ∉ before ∧
        deeds' = before ++ [f.call] ∧
        cut.session.machine =
          (Machine.create settings.config random).after (Deed.requests before) ∧
        cut.session.CutOff f whole.session) ∧
      (f.call ∉ deeds → deeds' = deeds ∧ cut = whole.withFault f) ∧
      ∀ why, Session.refusal? settings file = some why →
        deeds' = (file.toOption.map fun image => Deed.ask (.load image)).toList ∧
          cut = ⟨⟨Machine.create settings.config random, .fresh (some f) padding, .clocked,
            #[.created settings.config], some (.failed why)⟩, script⟩ := by
  intro whole deeds cut deeds'
  obtain ⟨hdeeds, hsame, hcut⟩ :=
    @Scripted.run_withFault settings file (.fresh none padding) random script ticks limit f rfl
  refine ⟨fun hmem => ?_, fun hnot => ⟨hdeeds.trans (upTo_of_not_mem hnot), hsame hnot⟩,
    fun why hwhy => (Scripted.run_of_refused hwhy _ random script ticks limit).symm⟩
  obtain ⟨before, behind, hsplit, hbefore⟩ := List.eq_append_cons_of_mem hmem
  have hupTo : deeds' = before ++ [f.call] := by
    refine hdeeds.trans ?_
    show upTo f.call deeds = _
    rw [hsplit, upTo_append_cons hbefore]
  refine ⟨before, behind, hsplit, hbefore, hupTo, ?_, hcut hmem⟩
  have hasked : Deed.requests deeds' = Deed.requests before := by
    rw [hupTo, Deed.requests_append]
    exact List.append_nil _
  rw [← hasked]
  exact Scripted.machine_run settings file _ random script ticks limit

/-- A program that clears the display twice, with a key in between. The second frame cannot be
locked: the key has gone down by then, and the frame stays to be shown. A window that would fail
after one frame does not, since it is opened before any. A program without its file is refused. -/
theorem screen_failure_cuts_off_second_frame :
    let settings : Settings := ⟨"game", { preloadFont := false }, 500, 10, .info⟩
    let file : Except ReadError (List UInt8) := .ok [0x00, 0xE0, 0x00, 0xE0, 0x12, 0x04]
    let f : ScreenFault := ⟨.lock, "lost", 1⟩
    let late : ScreenFault := ⟨.window, "lost", 1⟩
    let script := [.quiet 1, .events [.keyDown (some ⟨"Q"⟩)], .untilShown 2]
    let run := fun file fault => Scripted.run settings file (.fresh fault 3) (.ofList []) script
      (fun _ => 1) 9
    let deeds := Scripted.runDeeds settings file (.fresh none 3) (.ofList []) script (fun _ => 1) 9
    (f.call ∈ deeds ∧ late.call ∉ deeds ∧ (run file none).session.ending = some .closed) ∧
      (run file (some f)).session.CutOff f (run file none).session ∧
      run file (some late) = (run file none).withFault late ∧
      (run (.error .notFound) (some f)).script = script := by
  intro settings file f late script run deeds
  have hcalls : f.call ∈ deeds ∧ late.call ∉ deeds ∧
      (run file none).session.ending = some .closed := by decide +kernel
  obtain ⟨hreached, -, -⟩ :=
    screen_failure_cuts_off settings file f 3 (.ofList []) script (fun _ => 1) 9
  obtain ⟨-, hmissed, -⟩ :=
    screen_failure_cuts_off settings file late 3 (.ofList []) script (fun _ => 1) 9
  obtain ⟨-, -, hrefused⟩ :=
    screen_failure_cuts_off settings (.error .notFound) f 3 (.ofList []) script (fun _ => 1) 9
  obtain ⟨before, behind, -, -, -, -, hcut⟩ := hreached hcalls.1
  exact ⟨hcalls, hcut, (hmissed hcalls.2.1).2, congrArg Scripted.script (hrefused _ rfl).2⟩

end ChipEight.Host
