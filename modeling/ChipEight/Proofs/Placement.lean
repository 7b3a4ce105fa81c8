import ChipEight.Display.Sprite
import Mathlib.Data.List.Basic

/-!
Where the lit cells of a sprite land. A cell at some coordinates is refused or lands on
`EdgePolicy.landing?`, and what it does is up to the policy and the coordinates alone. So a whole
placement comes down to the first cell that is refused, if one is, and to the points of all cells
otherwise (`EdgePolicy.placeAll_eq`).
-/
namespace ChipEight

namespace Frame

theorem point?_eq_some_iff {x y : Nat} {p : Point} :
    point? x y = some p ↔ x = p.x.val ∧ y = p.y.val := by
  obtain ⟨px, py⟩ := p
  rw [point?]
  split
  · simp [Fin.ext_iff]
  · rename_i hout
    constructor
    · intro h
      cases h
    · rintro ⟨hx, hy⟩
      exact absurd ⟨hx ▸ px.isLt, hy ▸ py.isLt⟩ hout

theorem point?_eq_none_iff {x y : Nat} : point? x y = none ↔ width ≤ x ∨ height ≤ y := by
  rw [point?]
  split
  · rename_i hin
    simp only [reduceCtorEq, width, height, false_iff]
    omega
  · rename_i hout
    simp only [width, height, true_iff]
    omega

end Frame

namespace EdgePolicy

/-- The point a lit cell at these coordinates lands on if it is not refused. It may land nowhere. -/
def landing? (policy : EdgePolicy) (x y : Nat) : Option Point :=
  match policy with
  | wrap => Frame.point? (x % Frame.width) (y % Frame.height)
  | clip | fault => Frame.point? x y

/-- Whether a lit cell at these coordinates is refused. -/
def refuses (policy : EdgePolicy) (x y : Nat) : Bool :=
  policy = fault ∧ (Frame.width ≤ x ∨ Frame.height ≤ y)

theorem refuses_eq_false_of_ne {policy : EdgePolicy} (h : policy ≠ fault) (x y : Nat) :
    policy.refuses x y = false := by
  simp [refuses, h]

theorem outside_of_refuses {policy : EdgePolicy} {x y : Nat} (h : policy.refuses x y = true) :
    Frame.width ≤ x ∨ Frame.height ≤ y := by
  rw [refuses, decide_eq_true_eq] at h
  exact h.2

theorem landing?_wrap (x y : Nat) :
    wrap.landing? x y = some ⟨Fin.ofNat 64 x, Fin.ofNat 32 y⟩ :=
  Frame.point?_eq_some_iff.mpr ⟨rfl, rfl⟩

theorem place_eq (policy : EdgePolicy) (x y : Nat) :
    policy.place x y =
      if policy.refuses x y then .error (.spriteOutOfBounds x y)
      else .ok (policy.landing? x y) := by
  cases policy with
  | wrap =>
    rw [refuses_eq_false_of_ne (by simp), landing?_wrap]
    rfl
  | clip =>
    rw [refuses_eq_false_of_ne (by simp)]
    rfl
  | fault =>
    rw [place, refuses, landing?]
    cases hpoint : Frame.point? x y with
    | none =>
      have hout := Frame.point?_eq_none_iff.mp hpoint
      simp [hout]
    | some p =>
      have hin : ¬ (Frame.width ≤ x ∨ Frame.height ≤ y) := fun hout => by
        rw [Frame.point?_eq_none_iff.mpr hout] at hpoint
        cases hpoint
      simp [hin]

/-- Inside the display no policy refuses a cell or moves it. -/
theorem refuses_inside (policy : EdgePolicy) {x y : Nat} (h : x < 64 ∧ y < 32) :
    policy.refuses x y = false := by
  have hin : ¬ (Frame.width ≤ x ∨ Frame.height ≤ y) := by
    simp only [Frame.width, Frame.height]
    omega
  simp [refuses, hin]

theorem landing?_inside (policy : EdgePolicy) {x y : Nat} (h : x < 64 ∧ y < 32) :
    policy.landing? x y = some ⟨⟨x, h.1⟩, ⟨y, h.2⟩⟩ := by
  cases policy with
  | wrap => simp [landing?_wrap, Fin.ofNat, Nat.mod_eq_of_lt h.1, Nat.mod_eq_of_lt h.2]
  | clip | fault => simp [landing?, Frame.point?, h]

/-- A sprite is refused at the first of its lit cells that is, and put on the display as a whole if
none is. -/
theorem placeAll_eq (policy : EdgePolicy) (x y : Nat) (cells : List (Nat × Nat)) :
    policy.placeAll x y cells =
      match cells.find? fun cell => policy.refuses (x + cell.1) (y + cell.2) with
      | some cell => .error (.spriteOutOfBounds (x + cell.1) (y + cell.2))
      | none => .ok (cells.filterMap fun cell => policy.landing? (x + cell.1) (y + cell.2)) := by
  induction cells with
  | nil => rfl
  | cons cell rest ih =>
    obtain ⟨column, row⟩ := cell
    rw [placeAll, place_eq, ih, List.find?_cons, List.filterMap_cons]
    cases policy.refuses (x + column) (y + row) with
    | true => rfl
    | false =>
      dsimp only
      cases rest.find? fun cell => policy.refuses (x + cell.1) (y + cell.2) with
      | some _ => rfl
      | none => cases policy.landing? (x + column) (y + row) <;> rfl

/-- A placement that fails is refused at one of the sprite's cells. -/
theorem of_placeAll_error {policy : EdgePolicy} {x y : Nat} {cells : List (Nat × Nat)} {f : Fault}
    (h : policy.placeAll x y cells = .error f) :
    ∃ cell ∈ cells, policy.refuses (x + cell.1) (y + cell.2) = true ∧
      f = .spriteOutOfBounds (x + cell.1) (y + cell.2) := by
  rw [placeAll_eq] at h
  split at h
  · rename_i cell hcell
    exact ⟨cell, List.mem_of_find?_eq_some hcell, by simpa using List.find?_some hcell,
      (Except.error.inj h).symm⟩
  · cases h

/-- A placement that succeeds finds the points its cells land on. -/
theorem of_placeAll_ok {policy : EdgePolicy} {x y : Nat} {cells : List (Nat × Nat)}
    {points : List Point} (h : policy.placeAll x y cells = .ok points) :
    (∀ cell ∈ cells, policy.refuses (x + cell.1) (y + cell.2) = false) ∧
      points = cells.filterMap fun cell => policy.landing? (x + cell.1) (y + cell.2) := by
  rw [placeAll_eq] at h
  split at h
  · cases h
  · rename_i hnone
    exact ⟨fun cell hmem => by simpa using List.find?_eq_none.mp hnone cell hmem,
      (Except.ok.inj h).symm⟩

end EdgePolicy
end ChipEight
