import ChipEight.Display.Frame
import ChipEight.Text.Hex

/-!
Display lines as text: sixteen hexadecimal digits for the 64 cells of a row, the leftmost cell
the most significant bit, or blocks and blanks to look at.
-/
namespace ChipEight

namespace Frame

/-- The number whose binary digits are these cells, the first the most significant. -/
def lineValue (cells : List Bool) : Nat :=
  cells.foldl (fun value on => 2 * value + on.toNat) 0

/-- The digits of one line. -/
def line (f : Frame) (y : Fin 32) : String :=
  String.ofList (Hex.fixed .lower 16 (lineValue f.rows[y].toList))

/-- The digits of all lines, from top to bottom. -/
def lines (f : Frame) : List String :=
  (List.finRange 32).map f.line

/-- The lines in which `after` differs from `before`, from top to bottom. -/
def changedLines (before after : Frame) : List (Fin 32 × String) :=
  ((List.finRange 32).filter fun y => before.rows[y] ≠ after.rows[y]).map
    fun y => (y, after.line y)

/-- The cells of all lines as blocks and blanks, from top to bottom. -/
def blocks (f : Frame) : List String :=
  f.rows.toList.map fun row =>
    String.ofList (row.toList.flatMap fun on => if on then ['█', '█'] else [' ', ' '])

/-- The frame whose lines are given by numbers; a line that is missing is blank. -/
def ofLineValues (values : List Nat) : Frame :=
  ⟨Vector.ofFn fun y => Vector.ofFn fun x => (values[y]?.getD 0).testBit (63 - x)⟩

end Frame
end ChipEight
