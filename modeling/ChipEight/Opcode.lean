/-!
Opcodes: sixteen bits, read as four nibbles. The first nibble is the family; the others hold
operands in one of the layouts `_XYN`, `_XNN` and `_NNN`. `Opcode.ofNibbles` puts four nibbles
together.
-/
namespace ChipEight

/-- The number of one of the sixteen registers. -/
abbrev Register := Fin 16

/-- A 12-bit address, the only kind an instruction can carry. -/
abbrev Address := Fin 4096

/-- A word fetched from memory, before it is known to be an instruction. -/
structure Opcode where
  word : UInt16
  deriving DecidableEq

namespace Opcode

/-- The first nibble, which selects the family of instructions. -/
def family (op : Opcode) : Fin 16 :=
  Fin.ofNat 16 (op.word.toNat / 4096)

/-- The second nibble: the register most instructions write. -/
def x (op : Opcode) : Register :=
  Fin.ofNat 16 (op.word.toNat / 256)

/-- The third nibble: a second register. -/
def y (op : Opcode) : Register :=
  Fin.ofNat 16 (op.word.toNat / 16)

/-- The last nibble: a count, or the operation within a family. -/
def n (op : Opcode) : Fin 16 :=
  Fin.ofNat 16 op.word.toNat

/-- The low byte: an immediate value, or the operation within a family. -/
def byte (op : Opcode) : UInt8 :=
  UInt8.ofNat op.word.toNat

/-- The low twelve bits: an address. -/
def address (op : Opcode) : Address :=
  Fin.ofNat 4096 op.word.toNat

/-- The opcode of four nibbles, the family first. -/
def ofNibbles (family x y n : Fin 16) : Opcode :=
  ⟨UInt16.ofNat (4096 * family + 256 * x + 16 * y + n)⟩

end Opcode
end ChipEight
