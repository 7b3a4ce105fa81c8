import ChipEight.Display.Frame

/-!
Pictures: a frame as bytes, three for each cell (red, green, blue), all at full strength where the
cell is on. A screen's buffer may keep its rows further apart than a picture's rows are long;
`Picture.blit?` writes the rows where the buffer wants them and leaves the bytes between them.
-/
namespace ChipEight

namespace Picture

/-- The bytes of one row of a picture. -/
def rowSize : Nat := 192

/-- The three bytes of a cell. -/
def cell (on : Bool) : List UInt8 :=
  List.replicate 3 (if on then 255 else 0)

/-- The bytes of one row of cells. -/
def row (cells : Vector Bool 64) : List UInt8 :=
  cells.toList.flatMap cell

/-- The rows of a frame's picture, from top to bottom. -/
def rows (f : Frame) : List (List UInt8) :=
  f.rows.toList.map row

/-- A frame's picture. -/
def ofFrame (f : Frame) : List UInt8 :=
  (rows f).flatten

/-- Copies bytes into a buffer, one after the other, leaving out those behind its end. -/
def copy (buffer : Array UInt8) : Nat → List UInt8 → Array UInt8
  | _, [] => buffer
  | start, b :: rest => copy (buffer.setIfInBounds start b) (start + 1) rest

/-- Copies rows into a buffer whose rows start `pitch` bytes apart, the first of them at `start`.
There is no answer if a row does not fit. -/
def copyRows? (pitch start : Nat) (buffer : Array UInt8) :
    List (List UInt8) → Option (Array UInt8)
  | [] => some buffer
  | row :: rest =>
      if start + row.length ≤ buffer.size then
        copyRows? pitch (start + pitch) (copy buffer start row) rest
      else none

/-- Writes a frame's picture into a buffer whose rows start `pitch` bytes apart. -/
def blit? (pitch : Nat) (f : Frame) (buffer : Array UInt8) : Option (Array UInt8) :=
  copyRows? pitch 0 buffer (rows f)

/-- The frame a buffer shows: a cell is on where its first byte is not zero. -/
def shown (pitch : Nat) (buffer : Array UInt8) : Frame :=
  ⟨Vector.ofFn fun y => Vector.ofFn fun x => buffer[y.val * pitch + 3 * x.val]?.getD 0 ≠ 0⟩

end Picture
end ChipEight
