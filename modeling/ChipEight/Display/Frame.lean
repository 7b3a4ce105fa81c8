/-!
Frames: 64 by 32 cells, each on or off. `Frame.lit` is the view every operation is described by.
A `Display` is a frame together with the note whether it has been drawn to since it was last
shown.
-/
namespace ChipEight

/-- A place on the display, counted from the top left corner. -/
structure Point where
  x : Fin 64
  y : Fin 32
  deriving DecidableEq

/-- The cells of the display, row by row. -/
structure Frame where
  rows : Vector (Vector Bool 64) 32
  deriving DecidableEq

namespace Frame

/-- The number of cells in a row. -/
def width : Nat := 64

/-- The number of rows. -/
def height : Nat := 32

/-- Every cell off. -/
def blank : Frame :=
  ⟨Vector.replicate 32 (Vector.replicate 64 false)⟩

/-- Whether the cell at a point is on. -/
def lit (f : Frame) (p : Point) : Bool :=
  f.rows[p.y][p.x]

/-- Turns the cell at a point over. -/
def toggle (f : Frame) (p : Point) : Frame :=
  ⟨f.rows.set p.y (f.rows[p.y].set p.x (!f.lit p))⟩

/-- Turns the cells at some points over, one after the other. -/
def toggleAll (f : Frame) (points : List Point) : Frame :=
  points.foldl toggle f

/-- Whether turning over the cells at some points, one after the other, turns any of them off. -/
def collides (f : Frame) : List Point → Bool
  | [] => false
  | p :: rest => f.lit p || (f.toggle p).collides rest

/-- The point with these coordinates, if the display has it. -/
def point? (x y : Nat) : Option Point :=
  if h : x < 64 ∧ y < 32 then some ⟨⟨x, h.1⟩, ⟨y, h.2⟩⟩ else none

/-! ## The view -/

@[simp] theorem lit_blank (p : Point) : blank.lit p = false := by
  simp [lit, blank]

/-- Frames with the same view are equal. -/
theorem ext_lit {f g : Frame} (h : ∀ p, f.lit p = g.lit p) : f = g := by
  rcases f with ⟨v⟩
  rcases g with ⟨w⟩
  congr 1
  apply Vector.ext
  intro i hi
  apply Vector.ext
  intro j hj
  exact h ⟨⟨j, hj⟩, ⟨i, hi⟩⟩

theorem lit_toggle (f : Frame) (p q : Point) :
    (f.toggle p).lit q = (f.lit q ^^ decide (p = q)) := by
  rcases p with ⟨px, py⟩
  rcases q with ⟨qx, qy⟩
  simp only [lit, toggle, Fin.getElem_fin, Vector.getElem_set, Point.mk.injEq, Fin.ext_iff]
  by_cases hy : py.val = qy.val
  · by_cases hx : px.val = qx.val
    · simp [hx, hy]
    · simp [hx, hy]
  · simp [hy]

/-- Turning cells over leaves each cell at the parity of the number of times it was hit. -/
theorem lit_toggleAll (f : Frame) (points : List Point) (q : Point) :
    (f.toggleAll points).lit q = (f.lit q ^^ decide (points.count q % 2 = 1)) := by
  induction points generalizing f with
  | nil => simp [toggleAll]
  | cons p rest ih =>
    have : f.toggleAll (p :: rest) = (f.toggle p).toggleAll rest := rfl
    rw [this, ih, lit_toggle, Bool.xor_assoc]
    congr 1
    by_cases h : p = q
    · subst h
      simp only [List.count_cons_self, decide_true, Bool.true_xor]
      rw [← decide_not]
      congr 1
      simp only [eq_iff_iff]
      omega
    · simp [List.count_cons_of_ne h, h]

end Frame

/-- A frame, and whether it has been drawn to since it was last shown. -/
structure Display where
  frame : Frame
  dirty : Bool
  deriving DecidableEq

namespace Display

/-- A blank display that needs no showing. -/
def blank : Display :=
  ⟨.blank, false⟩

/-- Turns every cell off. -/
def clear (_ : Display) : Display :=
  ⟨.blank, true⟩

/-- Turns the cells at some points over. -/
def draw (d : Display) (points : List Point) : Display :=
  ⟨d.frame.toggleAll points, true⟩

/-- Turns one cell over without noting it. -/
def toggle (d : Display) (p : Point) : Display :=
  { d with frame := d.frame.toggle p }

/-- Notes that the display has to be shown. -/
def markDirty (d : Display) : Display :=
  { d with dirty := true }

/-- Notes that the frame has been shown. -/
def acknowledge (d : Display) : Display :=
  { d with dirty := false }

/-- The frame, if it has been drawn to since it was last shown. -/
def pending? (d : Display) : Option Frame :=
  if d.dirty then some d.frame else none

end Display
end ChipEight
