import ChipEight.Opcode
import ChipEight.Text.Hex

/-!
Faults: why an image could not be loaded or a cycle could not be completed. A fault leaves
everything the way it was before.
-/
namespace ChipEight

/-- The number of bytes between the start of program memory and the end of memory. -/
def imageCapacity : Nat := 3584

/-- Why an image could not be loaded or a cycle could not be completed. -/
inductive Fault where
  /-- The image has more bytes than program memory. -/
  | imageTooLarge (size : Nat)
  /-- The first byte of an access that memory does not have. -/
  | addressOutOfRange (address : Nat)
  /-- A call at this address found every slot of the call stack in use. -/
  | stackOverflow (pc : UInt16)
  /-- A return at this address found the call stack empty. -/
  | stackUnderflow (pc : UInt16)
  /-- The opcode at this address stands for no instruction. -/
  | unknownOpcode (opcode : Opcode) (pc : UInt16)
  /-- A lit sprite cell would land here. -/
  | spriteOutOfBounds (x y : Nat)
  /-- The stream of an image broke off. -/
  | io (cause : String)
  deriving DecidableEq

/-- The wording shown for a fault. -/
def Fault.message : Fault → String
  | imageTooLarge size =>
      "ROM is too large (" ++ toString size ++ " bytes), at most " ++ toString imageCapacity
        ++ " bytes fit in program memory"
  | addressOutOfRange address =>
      "memory access out of range at address " ++ Hex.address address
  | stackOverflow pc =>
      "stack overflow: call at " ++ Hex.address pc.toNat ++ " with every stack slot in use"
  | stackUnderflow pc =>
      "stack underflow: return at " ++ Hex.address pc.toNat ++ " with an empty call stack"
  | unknownOpcode op pc =>
      "unknown opcode " ++ Hex.address op.word.toNat ++ " at " ++ Hex.address pc.toNat
  | spriteOutOfBounds x y =>
      "sprite pixel (" ++ toString x ++ ", " ++ toString y ++ ") lies outside the display"
  | io cause => "io error: " ++ cause

end ChipEight
