import ChipEight.Opcode

/-!
Instructions: what an opcode means. `Instruction.decode?` is the whole instruction set; an opcode
it answers `none` for is left to the machine's policy on unknown opcodes.
-/
namespace ChipEight

/-- The condition of a conditional skip. -/
inductive Test where
  /-- The register holds the value. -/
  | holds (x : Register) (value : UInt8)
  /-- The register holds another value. -/
  | lacks (x : Register) (value : UInt8)
  /-- The two registers hold the same value. -/
  | same (x y : Register)
  /-- The two registers hold different values. -/
  | different (x y : Register)
  /-- The key named by the register's low nibble is down. -/
  | pressed (x : Register)
  /-- The key named by the register's low nibble is up. -/
  | released (x : Register)
  deriving DecidableEq

/-- The ways to combine two registers. -/
inductive Arithmetic where
  | copy
  | or
  | and
  | xor
  | add
  | subtract
  | shiftRight
  /-- The target taken away from the other register. -/
  | subtractFrom
  | shiftLeft
  deriving DecidableEq

/-- One instruction with its operands. -/
inductive Instruction where
  /-- Turn every display cell off. -/
  | clear
  /-- Go back to the address on top of the call stack. -/
  | leave
  | jump (target : Address)
  /-- Put the address of the next instruction on the call stack and jump. -/
  | call (target : Address)
  /-- Leave out the next instruction if the test holds. -/
  | skip (test : Test)
  /-- Put a value into a register. -/
  | set (x : Register) (value : UInt8)
  /-- Add a value to a register, without a flag. -/
  | increase (x : Register) (value : UInt8)
  /-- Combine the first register with the second, into the first. -/
  | combine (how : Arithmetic) (x y : Register)
  /-- Put an address into the index register. -/
  | point (target : Address)
  /-- Jump to an address plus register zero. -/
  | jumpBy (base : Address)
  /-- Put a random byte into a register, keeping the bits of the mask. -/
  | random (x : Register) (mask : UInt8)
  /-- Draw a sprite of that many rows at the position two registers hold. -/
  | draw (x y : Register) (rows : Fin 16)
  /-- Copy the delay timer into a register. -/
  | readDelay (x : Register)
  /-- Wait for a key and put its number into a register. -/
  | awaitKey (x : Register)
  /-- Copy a register into the delay timer. -/
  | setDelay (x : Register)
  /-- Copy a register into the sound timer. -/
  | setSound (x : Register)
  /-- Add a register to the index register. -/
  | advance (x : Register)
  /-- Point the index register at the sprite of a register's low nibble. -/
  | pointDigit (x : Register)
  /-- Store the three decimal digits of a register. -/
  | storeDecimal (x : Register)
  /-- Store the registers up to and including this one. -/
  | save (last : Register)
  /-- Read back the registers up to and including this one. -/
  | restore (last : Register)
  deriving DecidableEq

namespace Arithmetic

/-- The operation the last nibble of an `8XYN` opcode selects. -/
def ofNibble? (n : Fin 16) : Option Arithmetic :=
  match n.val with
  | 0x0 => some .copy
  | 0x1 => some .or
  | 0x2 => some .and
  | 0x3 => some .xor
  | 0x4 => some .add
  | 0x5 => some .subtract
  | 0x6 => some .shiftRight
  | 0x7 => some .subtractFrom
  | 0xE => some .shiftLeft
  | _ => none

/-- The value the target is left with. -/
def value (a b : UInt8) : Arithmetic → UInt8
  | copy => b
  | or => a ||| b
  | and => a &&& b
  | xor => a ^^^ b
  | add => a + b
  | subtract => a - b
  | shiftRight => a >>> 1
  | subtractFrom => b - a
  | shiftLeft => a <<< 1

/-- What the flag register is left with: the carry of a sum, the absence of a borrow of a
difference, the bit a shift pushes out. The other operations leave it alone. -/
def flag? (a b : UInt8) : Arithmetic → Option Bool
  | copy | or | and | xor => none
  | add => some (decide (256 ≤ a.toNat + b.toNat))
  | subtract => some (decide (b ≤ a))
  | shiftRight => some (decide (a.toNat % 2 = 1))
  | subtractFrom => some (decide (a ≤ b))
  | shiftLeft => some (decide (128 ≤ a.toNat))

end Arithmetic

namespace Instruction

/-- Reads an opcode of the family `F`, which its low byte selects from. -/
def ofLowByte? (x : Register) (low : UInt8) : Option Instruction :=
  match low.toNat with
  | 0x07 => some (.readDelay x)
  | 0x0A => some (.awaitKey x)
  | 0x15 => some (.setDelay x)
  | 0x18 => some (.setSound x)
  | 0x1E => some (.advance x)
  | 0x29 => some (.pointDigit x)
  | 0x33 => some (.storeDecimal x)
  | 0x55 => some (.save x)
  | 0x65 => some (.restore x)
  | _ => none

/-- The instruction an opcode stands for, if it stands for one. -/
def decode? (op : Opcode) : Option Instruction :=
  match op.family.val with
  | 0x0 =>
      if op.address.val = 0x0E0 then some .clear
      else if op.address.val = 0x0EE then some .leave
      else none
  | 0x1 => some (.jump op.address)
  | 0x2 => some (.call op.address)
  | 0x3 => some (.skip (.holds op.x op.byte))
  | 0x4 => some (.skip (.lacks op.x op.byte))
  | 0x5 => if op.n.val = 0 then some (.skip (.same op.x op.y)) else none
  | 0x6 => some (.set op.x op.byte)
  | 0x7 => some (.increase op.x op.byte)
  | 0x8 => (Arithmetic.ofNibble? op.n).map fun how => .combine how op.x op.y
  | 0x9 => if op.n.val = 0 then some (.skip (.different op.x op.y)) else none
  | 0xA => some (.point op.address)
  | 0xB => some (.jumpBy op.address)
  | 0xC => some (.random op.x op.byte)
  | 0xD => some (.draw op.x op.y op.n)
  | 0xE =>
      if op.byte.toNat = 0x9E then some (.skip (.pressed op.x))
      else if op.byte.toNat = 0xA1 then some (.skip (.released op.x))
      else none
  | _ => ofLowByte? op.x op.byte

end Instruction
end ChipEight
