import ChipEight.Proofs.Driving

/-!
What a session does, deed by deed: it goes through the stages of its screen, polls for events, and
asks its machine for things. `Scripted.runDeeds` lists the deeds of a session from its start, in
order. They leave nothing out that concerns the machine, which in the end is the one that was asked
for just that (`Scripted.machine_run`).
-/
namespace ChipEight

namespace Machine

theorem fault_load_of_fits (m : Machine) {image : List UInt8}
    (h : image.length ≤ imageCapacity) : (m.load image).fault = none := by
  rw [load, Memory.load, if_pos h]
  rfl

theorem load_of_too_large (m : Machine) {image : List UInt8} (h : imageCapacity < image.length) :
    m.load image = .failure m (.imageTooLarge image.length) := by
  rw [load, Memory.load, if_neg (Nat.not_le_of_gt h)]
  rfl

end Machine

namespace Host

/-- One thing a session does. -/
inductive Deed where
  /-- It asks its screen for a stage, when so many frames have been shown. -/
  | call (stage : Stage) (shown : Nat)
  /-- It polls for events, and gets these. -/
  | poll (events : List Event)
  /-- It asks its machine for something. -/
  | ask (request : Request)
  deriving DecidableEq

namespace Deed

/-- What a deed asks of the machine. -/
def request? : Deed → Option Request
  | ask request => some request
  | call .. | poll _ => none

/-- What some deeds ask of the machine, in order. -/
def requests (deeds : List Deed) : List Request :=
  deeds.filterMap request?

theorem requests_append (deeds more : List Deed) :
    requests (deeds ++ more) = requests deeds ++ requests more :=
  List.filterMap_append

theorem requests_cons_poll (events : List Event) (deeds : List Deed) :
    requests (.poll events :: deeds) = requests deeds := rfl

theorem requests_cons_ask (request : Request) (deeds : List Deed) :
    requests (.ask request :: deeds) = request :: requests deeds := rfl

theorem requests_map_ask (asked : List Request) : requests (asked.map .ask) = asked := by
  rw [requests, List.filterMap_map]
  exact List.filterMap_some

end Deed

/-! ## The screen -/

/-- The stages of a window. -/
def Stage.opening : List Stage := [.init, .video, .window, .canvas, .events]

/-- The stages of a frame. -/
def Stage.showing : List Stage := [.texture, .lock, .copy]

/-- The calls of some stages, up to the first that fails. -/
def Screen.calls (s : Screen) : List Stage → List Deed
  | [] => []
  | stage :: rest =>
      .call stage s.shown.size :: if (s.failure? stage).isSome then [] else s.calls rest

theorem Screen.requests_calls (s : Screen) (stages : List Stage) :
    Deed.requests (s.calls stages) = [] := by
  induction stages with
  | nil => rfl
  | cons stage rest ih =>
    rw [calls]
    split
    · rfl
    · exact ih

/-! ## Sessions -/

open CommandLine (Settings)

namespace Session

/-- What a session does before its first turn. -/
def startDeeds (settings : Settings) (file : Except ReadError (List UInt8)) (screen : Screen)
    (random : RandomBytes) : List Deed :=
  match file with
  | .error _ => []
  | .ok image =>
      .ask (.load image) ::
        if ((Machine.create settings.config random).load image).fault.isSome then []
        else screen.calls Stage.opening

/-- What a session does to show its frame. -/
def refreshDeeds (s : Session) : List Deed :=
  if s.machine.display.dirty then
    s.screen.calls Stage.showing ++
      if (s.screen.firstFailure? Stage.showing).isSome then [] else [.ask .acknowledge]
  else []

/-- What a session does after the frame has been shown. -/
def respondDeeds (s : Session) (events : List Event) (ticks : Nat) : List Deed :=
  .poll events :: (Event.requests events).map .ask ++
    if events.any Event.closes then []
    else
      .ask (.step 1) ::
        if (handleAll events s).machine.step.fault.isSome then [] else [.ask (.tick ticks)]

/-! ### The start -/

section
variable {settings : Settings} {file : Except ReadError (List UInt8)} {image : List UInt8}

/-- Why a program is refused: its file cannot be read, or it is too large. -/
def refusal? (settings : Settings) : Except ReadError (List UInt8) → Option Failure
  | .error cause => some (.unreadable settings.rom cause)
  | .ok image =>
      if imageCapacity < image.length then
        some (.unloadable settings.rom (.imageTooLarge image.length))
      else none

/-- A session whose program has been loaded. -/
def loaded (settings : Settings) (image : List UInt8) (screen : Screen) (random : RandomBytes) :
    Session where
  machine := ((Machine.create settings.config random).load image).machine
  screen := screen
  pace := .clocked
  log := #[.created settings.config, .loaded image.length, .started settings.rom image.length]
  ending := none

theorem start_of_refused {why : Failure} (h : refusal? settings file = some why) (screen : Screen)
    (random : RandomBytes) :
    start settings file screen random =
        ⟨Machine.create settings.config random, screen, .clocked, #[.created settings.config],
          some (.failed why)⟩ ∧
      startDeeds settings file screen random =
        (file.toOption.map fun image => Deed.ask (.load image)).toList := by
  cases file with
  | error cause =>
    cases h
    exact ⟨rfl, rfl⟩
  | ok image =>
    rw [refusal?] at h
    split at h
    · rename_i hlarge
      cases h
      rw [start, startDeeds]
      simp only [Machine.load_of_too_large _ hlarge]
      exact ⟨rfl, rfl⟩
    · cases h

theorem fits_of_not_refused (h : refusal? settings file = none) :
    ∃ image, file = .ok image ∧ image.length ≤ imageCapacity := by
  cases file with
  | error cause => cases h
  | ok image =>
    refine ⟨image, rfl, Nat.le_of_not_lt fun hlarge => ?_⟩
    simp [refusal?, hlarge] at h

theorem start_of_fits (h : image.length ≤ imageCapacity) (screen : Screen)
    (random : RandomBytes) :
    start settings (.ok image) screen random =
        (loaded settings image screen random).openWindow settings.scale ∧
      startDeeds settings (.ok image) screen random =
        .ask (.load image) :: screen.calls Stage.opening := by
  rw [start, startDeeds]
  simp only [Machine.fault_load_of_fits _ h]
  exact ⟨rfl, rfl⟩

theorem machine_start (settings : Settings) (file : Except ReadError (List UInt8))
    (screen : Screen) (random : RandomBytes) :
    (start settings file screen random).machine =
      (Machine.create settings.config random).after
        (Deed.requests (startDeeds settings file screen random)) := by
  cases file with
  | error cause => rfl
  | ok image =>
    have hload : ((Machine.create settings.config random).load image).machine =
        (Machine.create settings.config random).after [.load image] :=
      (Machine.act_load _ image).symm
    rcases Nat.lt_or_ge imageCapacity image.length with hlarge | hfits
    · rw [start, startDeeds, Deed.requests_cons_ask]
      dsimp only
      rw [Machine.load_of_too_large _ hlarge] at hload ⊢
      exact hload
    · obtain ⟨hstart, hdeeds⟩ := start_of_fits hfits screen random
      rw [hstart, hdeeds, Deed.requests_cons_ask, screen.requests_calls, ← hload]
      exact (openWindow_display _ _).1

end

/-! ### Turns -/

theorem machine_refresh (s : Session) :
    s.refresh.machine = s.machine.after (Deed.requests s.refreshDeeds) := by
  cases hdirty : s.machine.display.dirty with
  | false =>
    rw [refresh_of_clean hdirty, refreshDeeds, hdirty]
    rfl
  | true =>
    rw [refreshDeeds, hdirty, if_pos rfl, Deed.requests_append, Screen.requests_calls]
    cases hf : s.screen.firstFailure? Stage.showing with
    | some message =>
      rw [refresh_of_failure hdirty hf]
      rfl
    | none =>
      rw [refresh_of_shown hdirty hf]
      rfl

theorem machine_respond {s : Session} (hgoing : s.ending = none) (events : List Event)
    (ticks : Nat) :
    (s.respond events ticks).machine =
      s.machine.after (Deed.requests (s.respondDeeds events ticks)) := by
  obtain ⟨hasked, hending, -⟩ := handleAll_asks events hgoing
  rw [respondDeeds, Deed.requests_append, Deed.requests_cons_poll, Deed.requests_map_ask,
    Machine.after_append, ← hasked, respond, andThen, hending]
  cases events.any Event.closes with
  | true => rfl
  | false =>
    have hstep : (handleAll events s).machine.after [.step 1] =
        (handleAll events s).machine.step.machine := Machine.act_cycle _
    simp only [Bool.false_eq_true, if_false, Option.isSome_none]
    cases hfault : (handleAll events s).machine.step.fault with
    | some cause =>
      rw [cycle, hfault]
      exact hstep.symm
    | none =>
      rw [cycle, hfault]
      show _ = ((handleAll events s).machine.after [.step 1]).after [.tick ticks]
      rw [hstep]
      rfl

end Session

/-! ## Turns -/

namespace Scripted

/-- What a session does in a turn. -/
def turnDeeds (s : Scripted) (ticks : Nat) : List Deed :=
  s.session.refreshDeeds ++
    if s.session.refresh.ending.isSome then []
    else
      s.session.refresh.respondDeeds (poll s.session.refresh.screen.shown.size s.script).1 ticks

/-- What a session does in its turns. -/
def deeds (ticks : Nat → Nat) : (limit done : Nat) → Scripted → List Deed
  | 0, _, _ => []
  | limit + 1, done, s =>
      if s.session.ending.isSome then []
      else s.turnDeeds (ticks done) ++ deeds ticks limit (done + 1) (s.turn (ticks done))

/-- What a session does from its start on. -/
def runDeeds (settings : Settings) (file : Except ReadError (List UInt8)) (screen : Screen)
    (random : RandomBytes) (script : List ScriptItem) (ticks : Nat → Nat) (limit : Nat) :
    List Deed :=
  Session.startDeeds settings file screen random ++
    deeds ticks limit 0 (started settings file screen random script)

theorem deeds_of_ended {s : Scripted} {ticks : Nat → Nat} (h : s.session.ending ≠ none)
    (limit done : Nat) : deeds ticks limit done s = [] := by
  cases limit with
  | zero => rfl
  | succ limit => rw [deeds, if_pos (Option.isSome_iff_ne_none.mpr h)]

theorem deeds_of_going {s : Scripted} {ticks : Nat → Nat} (h : s.session.ending = none)
    (limit done : Nat) :
    deeds ticks (limit + 1) done s =
      s.turnDeeds (ticks done) ++ deeds ticks limit (done + 1) (s.turn (ticks done)) := by
  rw [deeds, h, Option.isSome_none, if_neg Bool.false_ne_true]

theorem machine_turn (s : Scripted) (ticks : Nat) :
    (s.turn ticks).session.machine =
      s.session.machine.after (Deed.requests (s.turnDeeds ticks)) := by
  rw [turnDeeds, Deed.requests_append, Machine.after_append, ← Session.machine_refresh]
  cases hending : s.session.refresh.ending with
  | some ending =>
    rw [turn_of_failed (by simp [hending])]
    rfl
  | none =>
    rw [turn_of_shown hending]
    exact Session.machine_respond hending _ ticks

theorem machine_turns (ticks : Nat → Nat) (limit done : Nat) (s : Scripted) :
    (turns ticks limit done s).session.machine =
      s.session.machine.after (Deed.requests (deeds ticks limit done s)) := by
  induction limit generalizing done s with
  | zero => rfl
  | succ limit ih =>
    rw [turns, deeds]
    split
    · rfl
    · rw [ih, machine_turn, Deed.requests_append, Machine.after_append]

/-- The machine of a session is the one that was asked for what the session's deeds say. -/
theorem machine_run (settings : Settings) (file : Except ReadError (List UInt8))
    (screen : Screen) (random : RandomBytes) (script : List ScriptItem) (ticks : Nat → Nat)
    (limit : Nat) :
    (run settings file screen random script ticks limit).session.machine =
      (Machine.create settings.config random).after
        (Deed.requests (runDeeds settings file screen random script ticks limit)) := by
  rw [runDeeds, Deed.requests_append, Machine.after_append, ← Session.machine_start]
  exact machine_turns ticks limit 0 _

end Scripted
end Host
end ChipEight
