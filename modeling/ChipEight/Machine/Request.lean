import ChipEight.Display.Picture
import ChipEight.Machine.Cycle

/-!
Requests: everything a host can ask of a machine, as one type, so that the history of a machine is
a list of requests. `Machine.serve` answers one: with a reply, the machine afterwards and what was
logged meanwhile. A request that fails leaves the machine as the fault found it.
-/
namespace ChipEight

/-- What a host can ask of a machine. -/
inductive Request where
  /-- Load a program image. -/
  | load (image : List UInt8)
  /-- Load the program image a stream delivers. -/
  | loadFrom (stream : List Chunk)
  | press (key : UInt8)
  | release (key : UInt8)
  /-- Let both timers fall a number of times. -/
  | tick (times : Nat)
  | readDelay
  | setDelay (value : UInt8)
  /-- Let the delay timer alone fall a number of times. -/
  | tickDelay (times : Nat)
  /-- Say that the frame has been shown. -/
  | acknowledge
  /-- Ask for the frame, if it is to be shown. -/
  | frame
  /-- Ask for the frame as a picture, if it is to be shown. -/
  | picture
  | readBlock (address : UInt16) (length : Nat)
  | readByte (address : UInt16)
  | fetch (address : UInt16)
  | cell (x y : Nat)
  | register (x : Nat)
  /-- Up to a number of cycles, to the first that fails. -/
  | step (times : Nat)
  /-- Run, and stop behind a number of cycles or a cycle that begins to wait for a key. -/
  | run (limit : Nat)
  deriving DecidableEq

/-- What a request is answered with. -/
inductive Reply where
  /-- Carried out, and nothing to tell. -/
  | done
  | failed (fault : Fault)
  | byte (value : UInt8)
  | word (value : UInt16)
  | block (bytes : List UInt8)
  | frame (frame : Option Frame)
  | picture (bytes : Option (List UInt8))
  | cell (on : Bool)
  /-- Whether a cell was on before it was turned over. -/
  | turnedOff (wasOn : Bool)
  /-- There is no such cell or register, or the range has no end. -/
  | noSuchPlace
  /-- The steps that succeeded, and the fault that ended them before their time. -/
  | steps (count : Nat) (fault : Option Fault)
  /-- The cycles of a run that was stopped. -/
  | cycles (count : Nat)
  /-- The run was not begun, since the machine would only wait. -/
  | wouldWait
  deriving DecidableEq

/-- The answer to a request. -/
structure Answer where
  machine : Machine
  reply : Reply
  log : List Log.Entry

namespace Answer

/-- Carried out, with nothing to tell and nothing logged. -/
def done (m : Machine) : Answer :=
  ⟨m, .done, []⟩

/-- Nothing changed. -/
def tell (m : Machine) (reply : Reply) : Answer :=
  ⟨m, reply, []⟩

/-- What an attempt came to. It logs only if it succeeded. -/
def ofOutcome (o : Outcome) (log : List Log.Entry) : Answer :=
  match o.fault with
  | none => ⟨o.machine, .done, log⟩
  | some f => ⟨o.machine, .failed f, []⟩

/-- A value an attempt found, or the fault it met. -/
def look {α : Type} (m : Machine) (reply : α → Reply) : Except Fault α → Answer
  | .ok a => tell m (reply a)
  | .error f => tell m (.failed f)

/-- How far a run of steps came. -/
def ofSteps (r : Run) : Answer :=
  ⟨r.machine, .steps r.cycles r.fault, r.log.toList⟩

/-- How a run ended. -/
def ofRun (r : Run) : Answer :=
  let reply := match r.fault with
    | none => .cycles r.cycles
    | some f => .failed f
  ⟨r.machine, reply, r.log.toList⟩

end Answer

namespace Machine

/-- Answers a request. -/
def serve (m : Machine) : Request → Answer
  | .load image => .ofOutcome (m.load image) [.loaded image.length]
  | .loadFrom stream => .ofOutcome (m.loadFrom stream) [.loaded (Chunk.total stream)]
  | .press key => .done (m.press key)
  | .release key => .done (m.release key)
  | .tick times => .done (ticks times m)
  | .readDelay => .tell m (.byte m.delay.value)
  | .setDelay value => .done { m with delay := ⟨value⟩ }
  | .tickDelay times => .done { m with delay := m.delay.ticks times }
  | .acknowledge => .done m.acknowledge
  | .frame => .tell m (.frame m.display.pending?)
  | .picture => .tell m (.picture (m.display.pending?.map Picture.ofFrame))
  | .readBlock address length =>
      if h : Memory.HasEnd address length then .look m .block (m.memory.read address length h)
      else .tell m .noSuchPlace
  | .readByte address => .look m .byte (m.memory.readByte address)
  | .fetch address => .look m (fun op => .word op.word) (m.memory.fetch address)
  | .cell x y =>
      match Frame.point? x y with
      | some p => .tell m (.cell (m.display.frame.lit p))
      | none => .tell m .noSuchPlace
  | .register x =>
      match m.registers[x]? with
      | some value => .tell m (.byte value)
      | none => .tell m .noSuchPlace
  | .step times => .ofSteps (m.steps times)
  | .run limit =>
      if m.isWaiting ∧ 0 < limit then .tell m .wouldWait
      else .ofRun (m.run isWaiting limit)

/-- The machine after a list of requests. -/
def after (m : Machine) (requests : List Request) : Machine :=
  requests.foldl (fun m request => (m.serve request).machine) m

/-- The answers to a list of requests, in order. -/
def answers (m : Machine) : List Request → List Answer
  | [] => []
  | request :: rest =>
      let answer := m.serve request
      answer :: answer.machine.answers rest

end Machine
end ChipEight
