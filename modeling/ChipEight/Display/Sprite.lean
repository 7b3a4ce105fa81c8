import ChipEight.Config
import ChipEight.Fault
import ChipEight.Display.Frame

/-!
Sprites: bytes that are drawn as rows of eight cells, the highest bit leftmost. The lit cells of a
sprite are placed on the display one by one, under the policy for the display's edges; the whole
placement fails if one of them does.
-/
namespace ChipEight

namespace Sprite

/-- The columns at which a row is lit, from left to right. -/
def litColumns (row : UInt8) : List Nat :=
  (List.range 8).filter fun column => row.toNat.testBit (7 - column)

/-- Column and row of the lit cells, row by row. -/
def litCells (rows : List UInt8) : List (Nat × Nat) :=
  rows.zipIdx.flatMap fun (bits, row) => (litColumns bits).map fun column => (column, row)

end Sprite

namespace EdgePolicy

/-- The point a lit cell at these coordinates lands on, if it lands anywhere. -/
def place (policy : EdgePolicy) (x y : Nat) : Except Fault (Option Point) :=
  match policy with
  | wrap => .ok (some ⟨Fin.ofNat 64 x, Fin.ofNat 32 y⟩)
  | clip => .ok (Frame.point? x y)
  | fault =>
      match Frame.point? x y with
      | some p => .ok (some p)
      | none => .error (.spriteOutOfBounds x y)

/-- The points on which the lit cells of a sprite land whose top left corner is at these
coordinates. Of several cells that fail, the first one counts. -/
def placeAll (policy : EdgePolicy) (x y : Nat) :
    List (Nat × Nat) → Except Fault (List Point)
  | [] => .ok []
  | (column, row) :: rest => do
      let point ← policy.place (x + column) (y + row)
      let points ← policy.placeAll x y rest
      return point.toList ++ points

end EdgePolicy
end ChipEight
