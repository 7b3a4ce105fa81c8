import ChipEight.CommandLine.Settings
import ChipEight.Host.Folder
import ChipEight.Host.Screen
import ChipEight.Host.Script
import ChipEight.Machine.Cycle

/-!
Sessions: a machine with a screen and a keyboard. A session starts by loading a program and opening
a window, and then goes round in turns. Each turn shows the frame if it has been drawn to, takes in
the events of one poll, runs one cycle, and lets the timers fall. Events that ask to end the session
end it at once. What a session does with the clock is left to its caller, who says how often the
timers fall in each turn.
-/
namespace ChipEight.Host

open CommandLine (Settings)

/-- Why a session failed. -/
inductive Failure where
  | unreadable (name : String) (cause : ReadError)
  | unloadable (name : String) (cause : Fault)
  | screen (message : String)
  /-- The cycle at this address failed. -/
  | cycle (pc : UInt16) (cause : Fault)
  deriving DecidableEq

/-- The wording shown for a session that failed. -/
def Failure.message : Failure → String
  | unreadable name cause => "unable to read " ++ name ++ ": " ++ cause.message
  | unloadable name cause => "unable to load " ++ name ++ ": " ++ cause.message
  | screen message => message
  | cycle pc cause => "cycle at " ++ Hex.address pc.toNat ++ " failed: " ++ cause.message

/-- How a session ended. -/
inductive Ending where
  /-- It was asked to. -/
  | closed
  | failed (why : Failure)
  deriving DecidableEq

/-- Whether a session keeps to its cycles in a second. -/
inductive Pace where
  | clocked
  | unlimited
  deriving DecidableEq

/-- A session on its way. -/
structure Session where
  machine : Machine
  screen : Screen
  pace : Pace
  log : Array Log.Entry
  ending : Option Ending

namespace Session

/-- Ends with a failure. -/
def fail (s : Session) (why : Failure) : Session :=
  { s with ending := some (.failed why) }

/-- Ends because it was asked to, and notes that. -/
def close (s : Session) : Session :=
  { s with ending := some .closed, log := s.log.push .closed }

/-- Goes on, unless the session has ended. -/
def andThen (s : Session) (f : Session → Session) : Session :=
  if s.ending.isSome then s else f s

/-- Opens the window. -/
def openWindow (s : Session) (scale : UInt32) : Session :=
  let (screen, failure) := s.screen.openWindow scale
  let s := { s with screen }
  match failure with
  | some message => s.fail (.screen message)
  | none => s

/-- Loads the program, whose file was read before, and opens the window. -/
def start (settings : Settings) (file : Except ReadError (List UInt8)) (screen : Screen)
    (random : RandomBytes) : Session :=
  let machine := Machine.create settings.config random
  let s : Session := ⟨machine, screen, .clocked, #[.created settings.config], none⟩
  match file with
  | .error cause => s.fail (.unreadable settings.rom cause)
  | .ok image =>
      let loading := machine.load image
      match loading.fault with
      | some cause => s.fail (.unloadable settings.rom cause)
      | none =>
          let log := (s.log.push (.loaded image.length)).push
            (.started settings.rom image.length)
          { s with machine := loading.machine, log }.openWindow settings.scale

/-- Shows the frame if it has been drawn to since it was last shown. A frame whose showing failed
stays to be shown. -/
def refresh (s : Session) : Session :=
  match s.machine.display.pending? with
  | none => s
  | some frame =>
      let (screen, failure) := s.screen.present frame
      match failure with
      | some message => { s with screen }.fail (.screen message)
      | none => { s with screen, machine := s.machine.acknowledge }

/-- Takes in one event. -/
def handle (s : Session) : Event → Session
  | .quit => s.close
  | .keyDown (some key) =>
      if key = .escape then s.close
      else
        match key.pad? with
        | some pad => { s with machine := s.machine.press pad }
        | none => if key = .space then { s with pace := .unlimited } else s
  | .keyUp (some key) =>
      match key.pad? with
      | some pad => { s with machine := s.machine.release pad }
      | none => if key = .space then { s with pace := .clocked } else s
  | .keyDown none | .keyUp none | .other => s

/-- Takes in the events of one poll, up to the one that ends the session. -/
def handleAll : List Event → Session → Session
  | [], s => s
  | event :: rest, s => (s.handle event).andThen (handleAll rest)

/-- Runs one cycle, and lets the timers fall a number of times if it succeeds. The address a
failure names is read off the machine behind the cycle. -/
def cycle (s : Session) (ticks : Nat) : Session :=
  let log := s.log ++ s.machine.stepLog
  let outcome := s.machine.step
  match outcome.fault with
  | none => { s with machine := outcome.machine.ticks ticks, log }
  | some cause =>
      { s with machine := outcome.machine, log }.fail (.cycle outcome.machine.pc cause)

/-- Takes in events and runs a cycle: what a turn does once its frame has been shown. -/
def respond (s : Session) (events : List Event) (ticks : Nat) : Session :=
  (handleAll events s).andThen (·.cycle ticks)

end Session

/-- A session that follows a script. -/
structure Scripted where
  session : Session
  /-- What is left of the script. -/
  script : List ScriptItem

namespace Scripted

/-- One turn, with so many ticks of the timers. -/
def turn (s : Scripted) (ticks : Nat) : Scripted :=
  let session := s.session.refresh
  if session.ending.isSome then { s with session }
  else
    let (events, script) := poll session.screen.shown.size s.script
    ⟨session.respond events ticks, script⟩

/-- Turns until the session ends, but no more than `limit`; `ticks` says how often the timers fall
in each of them. -/
def turns (ticks : Nat → Nat) : (limit done : Nat) → Scripted → Scripted
  | 0, _, s => s
  | limit + 1, done, s =>
      if s.session.ending.isSome then s
      else turns ticks limit (done + 1) (s.turn (ticks done))

/-- A session from its start to its end, but no more than `limit` turns of it. -/
def run (settings : Settings) (file : Except ReadError (List UInt8)) (screen : Screen)
    (random : RandomBytes) (script : List ScriptItem) (ticks : Nat → Nat) (limit : Nat) :
    Scripted :=
  turns ticks limit 0 ⟨Session.start settings file screen random, script⟩

end Scripted
end ChipEight.Host
