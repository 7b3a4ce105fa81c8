import ChipEight.Machine.Request

/-!
The test bench: a machine whose parts are worked on directly. It takes every request a host can
make, and besides executes opcodes that are given, and writes memory and display by hand.
-/
namespace ChipEight

/-- What can be done to a machine on the bench. -/
inductive BenchRequest where
  /-- What any host can ask. -/
  | host (request : Request)
  /-- Execute a list of opcodes a number of times over, to the first that fails. Waiting for a key
  does not hold them back. -/
  | execute (code : List Opcode) (rounds : Nat)
  | write (address : UInt16) (data : List UInt8)
  | writeByte (address : UInt16) (value : UInt8)
  /-- Put the digit sprites into memory. -/
  | loadFont
  /-- Turn one cell over, without a note that the frame is to be shown. -/
  | toggle (x y : Nat)
  | clear
  /-- Note that the frame is to be shown. -/
  | markDirty
  deriving DecidableEq

namespace Machine

/-- Answers a request on the bench. -/
def serveBench (m : Machine) : BenchRequest → Answer
  | .host request => m.serve request
  | .execute code rounds => .ofSteps ((Run.start m).executeRounds code rounds)
  | .write address data =>
      if h : Memory.HasEnd address data.length then
        .ofOutcome (m.store (m.memory.write address data h)) []
      else .tell m .noSuchPlace
  | .writeByte address value => .ofOutcome (m.store (m.memory.writeByte address value)) []
  | .loadFont => .done (m.withMemory m.memory.loadFont)
  | .toggle x y =>
      match Frame.point? x y with
      | some p =>
          ⟨{ m with display := m.display.toggle p }, .turnedOff (m.display.frame.lit p), []⟩
      | none => .tell m .noSuchPlace
  | .clear => .done { m with display := m.display.clear }
  | .markDirty => .done { m with display := m.display.markDirty }

/-- The machine after a list of requests on the bench. -/
def afterBench (m : Machine) (requests : List BenchRequest) : Machine :=
  requests.foldl (fun m request => (m.serveBench request).machine) m

/-- The answers to a list of requests on the bench, in order. -/
def benchAnswers (m : Machine) : List BenchRequest → List Answer
  | [] => []
  | request :: rest =>
      let answer := m.serveBench request
      answer :: answer.machine.benchAnswers rest

end Machine
end ChipEight
