/-!
Decimal text: unsigned numbers in the ten ASCII digits, leading zeros allowed.
-/
namespace ChipEight.Decimal

/-- The number that digits stand for, behind those read so far. -/
def valueFrom (sofar : Nat) (digits : List Char) : Nat :=
  digits.foldl (fun n c => 10 * n + (c.toNat - '0'.toNat)) sofar

/-- Reads a text of one digit or more, and nothing else. -/
def natural? (text : List Char) : Option Nat :=
  if text ≠ [] ∧ text.all Char.isDigit then some (valueFrom 0 text) else none

/-- Reads a number with or without a plus sign that is at least one and fits into 32 bits. -/
def positive32? (text : String) : Option UInt32 :=
  let digits := match text.toList with
    | '+' :: rest => rest
    | all => all
  match natural? digits with
  | some n => if 1 ≤ n ∧ n < UInt32.size then some (UInt32.ofNat n) else none
  | none => none

/-- No text reads as zero. -/
theorem positive32?_ne_zero (text : String) : positive32? text ≠ some 0 := by
  unfold positive32?
  intro h
  dsimp only at h
  split at h
  · rename_i n _
    split at h
    · rename_i hn
      have hz : (UInt32.ofNat n).toNat = 0 := by
        rw [Option.some.inj h]
        rfl
      rw [UInt32.toNat_ofNat', Nat.mod_eq_of_lt hn.2] at hz
      omega
    · cases h
  · cases h

end ChipEight.Decimal
