import ChipEight.CallStack
import ChipEight.Config
import ChipEight.Countdown
import ChipEight.Display.Frame
import ChipEight.Log
import ChipEight.Memory.Stream
import ChipEight.RandomBytes

/-!
The machine: registers, index register, program counter, call stack, timers, keypad, memory,
display and random bytes. This module holds its construction and what a host does to it between
cycles; what an instruction does stands in `ChipEight.Machine.Execute`. What can fail answers with
an `Outcome`, which has the machine afterwards also when there was a fault.
-/
namespace ChipEight

/-- The state of a machine. -/
structure Machine where
  config : Config
  /-- The general registers; the last one is also the flag register. -/
  registers : Vector UInt8 16
  /-- The register that points into memory. -/
  index : UInt16
  /-- The address of the next opcode. -/
  pc : UInt16
  calls : CallStack
  delay : Countdown
  sound : Countdown
  /-- Which keys are down. -/
  keys : Vector Bool 16
  /-- The register that the next key goes to, while the machine waits for one. -/
  awaiting : Option Register
  memory : Memory
  display : Display
  random : RandomBytes
  deriving DecidableEq

/-- What an attempt comes to: the machine afterwards, and the fault it met, if it met one. -/
structure Outcome where
  machine : Machine
  fault : Option Fault
  deriving DecidableEq

namespace Outcome

/-- The attempt succeeded. -/
def success (m : Machine) : Outcome :=
  ⟨m, none⟩

/-- The attempt met a fault and left this machine. -/
def failure (m : Machine) (f : Fault) : Outcome :=
  ⟨m, some f⟩

/-- Goes on with the value a check found; a check that fails leaves the machine as it is. -/
def check {α : Type} (m : Machine) (found : Except Fault α) (go : α → Outcome) : Outcome :=
  match found with
  | .ok a => go a
  | .error f => failure m f

/-- Changes the machine of an attempt that succeeded. -/
def onSuccess (o : Outcome) (f : Machine → Machine) : Outcome :=
  match o.fault with
  | none => ⟨f o.machine, none⟩
  | some _ => o

end Outcome

namespace Machine

/-- The flag register. -/
def flag : Register := ⟨15, by decide⟩

/-- A machine at the start of program memory, with nothing in memory. -/
def bare (config : Config) (random : RandomBytes) : Machine where
  config := config
  registers := Vector.replicate 16 0
  index := 0
  pc := 0x200
  calls := .empty
  delay := ⟨0⟩
  sound := ⟨0⟩
  keys := Vector.replicate 16 false
  awaiting := none
  memory := .empty
  display := .blank
  random := random

/-- A machine ready for a program, with the digit sprites in memory unless the configuration
leaves them out. -/
def create (config : Config) (random : RandomBytes) : Machine :=
  { bare config random with memory := if config.preloadFont then Memory.empty.loadFont else .empty }

/-- What a register holds. -/
def register (m : Machine) (x : Register) : UInt8 :=
  m.registers[x]

/-- Puts a value into a register. -/
def setRegister (m : Machine) (x : Register) (value : UInt8) : Machine :=
  { m with registers := m.registers.set x value }

/-- Puts one or zero into the flag register. -/
def setFlag (m : Machine) (on : Bool) : Machine :=
  m.setRegister flag (if on then 1 else 0)

/-- Puts values into the registers from zero on. -/
def setRegisters (m : Machine) (values : List UInt8) : Machine :=
  { m with registers := Vector.ofFn fun x => values[x]?.getD m.registers[x] }

/-- Whether the key named by a byte's low nibble is down. -/
def keyDown (m : Machine) (key : UInt8) : Bool :=
  m.keys.get ⟨key.toNat % 16, Nat.mod_lt _ (by decide)⟩

/-- Whether the machine waits for a key. -/
def isWaiting (m : Machine) : Bool :=
  m.awaiting.isSome

/-- A key goes down. If the machine waits for a key, its number goes to the waiting register.
There are sixteen keys; other numbers are ignored. -/
def press (m : Machine) (key : UInt8) : Machine :=
  if h : key.toNat < 16 then
    let m := { m with keys := m.keys.set key.toNat true }
    match m.awaiting with
    | some x => { m.setRegister x key with awaiting := none }
    | none => m
  else m

/-- A key goes up. Numbers that are no key are ignored. -/
def release (m : Machine) (key : UInt8) : Machine :=
  if h : key.toNat < 16 then { m with keys := m.keys.set key.toNat false } else m

/-- Both timers fall by one. -/
def tick (m : Machine) : Machine :=
  { m with delay := m.delay.tick, sound := m.sound.tick }

/-- Both timers tick a number of times. -/
def ticks : Nat → Machine → Machine
  | 0, m => m
  | times + 1, m => ticks times m.tick

/-- The frame has been shown. -/
def acknowledge (m : Machine) : Machine :=
  { m with display := m.display.acknowledge }

/-- The same machine with another memory. -/
def withMemory (m : Machine) (memory : Memory) : Machine :=
  { m with memory }

/-- The machine with the memory an attempt to write to it gave. -/
def store (m : Machine) (written : Except Fault Memory) : Outcome :=
  .check m written fun memory => .success (m.withMemory memory)

/-- Puts a program image into memory. -/
def load (m : Machine) (image : List UInt8) : Outcome :=
  m.store (m.memory.load image)

/-- Puts the program image that a stream delivers into memory. -/
def loadFrom (m : Machine) (stream : List Chunk) : Outcome :=
  m.store (m.memory.loadFrom stream)

/-! ## Registers -/

theorem register_setRegister (m : Machine) (x y : Register) (value : UInt8) :
    (m.setRegister x value).register y = if x = y then value else m.register y := by
  simp [register, setRegister, Vector.getElem_set, Fin.ext_iff]

theorem register_setFlag (m : Machine) (r : Register) (on : Bool) :
    (m.setFlag on).register r = if r = flag then if on then 1 else 0 else m.register r := by
  simp only [setFlag, register_setRegister, eq_comm]

end Machine
end ChipEight
