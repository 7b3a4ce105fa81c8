import ChipEight.Display.Sprite
import ChipEight.Instruction
import ChipEight.Machine.Basic

/-!
Executing an instruction. Both halves of it are read off the state before: `Instruction.next` is
the address the program goes on at, and `Instruction.effect` is everything else. An effect makes
all its checks before it changes anything, and never touches the program counter.
-/
namespace ChipEight

/-- Whether a test holds. -/
def Test.passes (m : Machine) : Test → Bool
  | holds x value => m.register x == value
  | lacks x value => m.register x != value
  | same x y => m.register x == m.register y
  | different x y => m.register x != m.register y
  | pressed x => m.keyDown (m.register x)
  | released x => !m.keyDown (m.register x)

/-- The sum of the index register and a register, before it is cut to sixteen bits. -/
def Machine.indexSum (m : Machine) (x : Register) : Nat :=
  m.index.toNat + (m.register x).toNat

/-- The decimal digits of a byte: hundreds, tens, units. -/
def decimalDigits (value : UInt8) : List UInt8 :=
  [value / 100, value / 10 % 10, value % 10]

namespace Machine

/-- Draws the points a sprite landed on. The flag register says whether any of them was turned
off. -/
def drawPoints (m : Machine) (points : List Point) : Machine :=
  { m.setFlag (m.display.frame.collides points) with display := m.display.draw points }

/-- Adds a register to the index register; under the policy that reports it, the flag register
says whether the sum was above `0xFFF`. -/
def advanceIndex (m : Machine) (x : Register) : Machine :=
  let sum := m.indexSum x
  let m := { m with index := UInt16.ofNat sum }
  match m.config.overflow with
  | .wrap => m
  | .setFlag => m.setFlag (decide (0x0FFF < sum))

/-- Combines two registers into the first. A flag is written after the result, so it wins where
the flag register is the target. -/
def combine (m : Machine) (how : Arithmetic) (x y : Register) : Machine :=
  let a := m.register x
  let b := m.register y
  let m := m.setRegister x (how.value a b)
  match how.flag? a b with
  | none => m
  | some on => m.setFlag on

end Machine

namespace Instruction

/-- The address the program goes on at. -/
def next (m : Machine) : Instruction → UInt16
  | jump target | call target => UInt16.ofNat target.val
  | jumpBy base => UInt16.ofNat (base.val + (m.register ⟨0, by decide⟩).toNat)
  | leave => m.calls.top
  | skip test => if test.passes m then m.pc + 4 else m.pc + 2
  | _ => m.pc + 2

/-- What an instruction does to everything but the program counter. -/
def effect (m : Machine) : Instruction → Outcome
  | clear => .success { m with display := m.display.clear }
  | leave =>
      match m.calls.pop? with
      | some calls => .success { m with calls }
      | none => .failure m (.stackUnderflow m.pc)
  | jump _ | jumpBy _ | skip _ => .success m
  | call _ =>
      match m.calls.push? (m.pc + 2) with
      | some calls => .success { m with calls }
      | none => .failure m (.stackOverflow m.pc)
  | set x value => .success (m.setRegister x value)
  | increase x value => .success (m.setRegister x (m.register x + value))
  | combine how x y => .success (m.combine how x y)
  | point target => .success { m with index := UInt16.ofNat target.val }
  | random x mask =>
      .success { m.setRegister x (m.random.next &&& mask) with random := m.random.advance }
  | draw x y rows =>
      .check m (m.memory.read m.index rows.val) fun sprite =>
        .check m (m.config.edges.placeAll (m.register x).toNat (m.register y).toNat
            (Sprite.litCells sprite)) fun points =>
          .success (m.drawPoints points)
  | readDelay x => .success (m.setRegister x m.delay.value)
  | awaitKey x => .success { m with awaiting := some x }
  | setDelay x => .success { m with delay := ⟨m.register x⟩ }
  | setSound x => .success { m with sound := ⟨m.register x⟩ }
  | advance x => .success (m.advanceIndex x)
  | pointDigit x =>
      .success { m with index := UInt16.ofNat (Font.address ((m.register x).toNat % 16)) }
  | storeDecimal x =>
      m.store (m.memory.write m.index (decimalDigits (m.register x))
        (Memory.hasEnd_of_le _ (by simp [decimalDigits])))
  | save last =>
      m.store (m.memory.write m.index (m.registers.toList.take (last.val + 1))
        (Memory.hasEnd_of_le _ (by rw [List.length_take]; omega)))
  | restore last =>
      .check m (m.memory.read m.index (last.val + 1)) fun values =>
        .success (m.setRegisters values)

/-- Executes an instruction. The program counter moves only if the effect succeeds. -/
def execute (i : Instruction) (m : Machine) : Outcome :=
  let pc := i.next m
  (i.effect m).onSuccess fun m' => { m' with pc }

end Instruction

namespace Machine

/-- Executes an opcode. One that stands for no instruction is left out, or fails, as the machine
is configured. -/
def execute (m : Machine) (op : Opcode) : Outcome :=
  match Instruction.decode? op with
  | some i => i.execute m
  | none =>
      match m.config.unknown with
      | .skip => .success { m with pc := m.pc + 2 }
      | .fail => .failure m (.unknownOpcode op m.pc)

/-- What executing an opcode logs. -/
def executeLog (m : Machine) (op : Opcode) : List Log.Entry :=
  if Instruction.decode? op = none ∧ m.config.unknown = .skip then [.leftOut op m.pc] else []

end Machine
end ChipEight
