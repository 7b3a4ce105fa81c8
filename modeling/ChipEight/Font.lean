/-!
The built-in font: one sprite for each hexadecimal digit, four cells wide and five rows tall,
and where memory keeps them.
-/
namespace ChipEight.Font

/-- Where the first digit's sprite starts. -/
def base : Nat := 0x050

/-- The rows of one digit. -/
def height : Nat := 5

/-- The rows of a digit, the top row first; a row's leftmost cell is its highest bit. -/
def glyph (digit : Fin 16) : List UInt8 :=
  match digit.val with
  | 0x0 => [0xF0, 0x90, 0x90, 0x90, 0xF0]
  | 0x1 => [0x20, 0x60, 0x20, 0x20, 0x70]
  | 0x2 => [0xF0, 0x10, 0xF0, 0x80, 0xF0]
  | 0x3 => [0xF0, 0x10, 0xF0, 0x10, 0xF0]
  | 0x4 => [0x90, 0x90, 0xF0, 0x10, 0x10]
  | 0x5 => [0xF0, 0x80, 0xF0, 0x10, 0xF0]
  | 0x6 => [0xF0, 0x80, 0xF0, 0x90, 0xF0]
  | 0x7 => [0xF0, 0x10, 0x20, 0x40, 0x40]
  | 0x8 => [0xF0, 0x90, 0xF0, 0x90, 0xF0]
  | 0x9 => [0xF0, 0x90, 0xF0, 0x10, 0xF0]
  | 0xA => [0xF0, 0x90, 0xF0, 0x90, 0x90]
  | 0xB => [0xE0, 0x90, 0xE0, 0x90, 0xE0]
  | 0xC => [0xF0, 0x80, 0x80, 0x80, 0xF0]
  | 0xD => [0xE0, 0x90, 0x90, 0x90, 0xE0]
  | 0xE => [0xF0, 0x80, 0xF0, 0x80, 0xF0]
  | _ => [0xF0, 0x80, 0xF0, 0x80, 0x80]

/-- All sixteen sprites, one after the other. -/
def sheet : List UInt8 :=
  (List.finRange 16).flatMap glyph

/-- Where a digit's sprite starts. -/
def address (digit : Nat) : Nat :=
  base + height * digit

@[simp] theorem length_glyph (digit : Fin 16) : (glyph digit).length = height := by
  revert digit
  decide

theorem length_sheet : sheet.length = 80 := by
  decide

end ChipEight.Font
