import ChipEight.Text.Hex
import ChipEight.Config
import ChipEight.Opcode
import ChipEight.Instruction
import ChipEight.Fault
import ChipEight.Font
import ChipEight.Memory.Basic
import ChipEight.Memory.Stream
import ChipEight.Memory.Changes
import ChipEight.CallStack
import ChipEight.Countdown
import ChipEight.RandomBytes
import ChipEight.Display.Frame
import ChipEight.Display.Sprite
import ChipEight.Display.Lines
import ChipEight.Display.Picture
import ChipEight.Log
import ChipEight.Machine.Basic
import ChipEight.Machine.Execute
import ChipEight.Machine.Cycle
import ChipEight.Machine.Request
import ChipEight.Machine.Bench
import ChipEight.Text.Decimal
import ChipEight.CommandLine.Word
import ChipEight.CommandLine.Settings
import ChipEight.Host.Keyboard
import ChipEight.Host.Script
import ChipEight.Host.Folder
import ChipEight.Host.Screen
import ChipEight.Host.Session
import ChipEight.Main
import ChipEight.Proofs.Cycle
import ChipEight.Proofs.Placement
import ChipEight.Proofs.Footprint
import ChipEight.Proofs.Atomicity
import ChipEight.Proofs.Acts
import ChipEight.Proofs.Requests
import ChipEight.Proofs.History
import ChipEight.Proofs.Subroutines
import ChipEight.Proofs.Picture
import ChipEight.Proofs.Presentation
import ChipEight.Proofs.Raw.Machine
import ChipEight.Proofs.Raw.Parts
import ChipEight.Proofs.Raw.Operations
import ChipEight.Proofs.Raw.Cycles
import ChipEight.Proofs.Raw.Safety
import ChipEight.Proofs.Standstill
import ChipEight.Proofs.Simulation
import ChipEight.Proofs.Asides
import ChipEight.Proofs.Policies
import ChipEight.Proofs.Clock
import ChipEight.Proofs.Driving
import ChipEight.Proofs.Parity
import ChipEight.Proofs.ByteMap
import ChipEight.Proofs.ProgramCounter
import ChipEight.Proofs.Stores
import ChipEight.Proofs.Deeds
import ChipEight.Proofs.ScreenFailure
import ChipEight.Proofs.IgnoredEvents
import ChipEight.Proofs.Countdowns
import ChipEight.Proofs.Timers
import ChipEight.Proofs.Keypad
import ChipEight.Proofs.BenchHistory
import ChipEight.Proofs.BenchSimulation
import ChipEight.Proofs.RandomStream
import ChipEight.Proofs.Sprites
import ChipEight.Proofs.MissingBytes
import ChipEight.Proofs.ReservedRegion
import ChipEight.Proofs.Encoding
import ChipEight.Proofs.Places
import ChipEight.Proofs.FlagArithmetic
import ChipEight.Proofs.IteratedSteps
import ChipEight.Proofs.Streams
import ChipEight.Proofs.UnknownOpcodes
import ChipEight.Proofs.FailedCycle
import ChipEight.Proofs.LogLines
import ChipEight.Proofs.Trace
import ChipEight.Proofs.RegisterDumps
import ChipEight.Proofs.Digits
import ChipEight.Proofs.Spelling
import ChipEight.Proofs.Drafts
import ChipEight.Proofs.CommandLines
import ChipEight.Proofs.Windows
