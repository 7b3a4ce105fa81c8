/-!
Hexadecimal text. `Hex.fixed` writes a number in a given number of digits, which is what
dumps and log lines are made of; `Hex.padded` writes all its digits, with at least that many;
`Hex.bytes?` reads pairs of digits back.
-/
namespace ChipEight

/-- The two alphabets of hexadecimal digits. -/
inductive Hex.Alphabet where
  | lower
  | upper
  deriving DecidableEq

namespace Hex

/-- The digit of a value below sixteen. -/
def Alphabet.digit : Alphabet → Nat → Char
  | .lower, d => Nat.digitChar d
  | .upper, d => (Nat.digitChar d).toUpper

/-- The last `width` digits of `n`, the most significant first. -/
def fixed (letters : Alphabet) : Nat → Nat → List Char
  | 0, _ => []
  | width + 1, n => fixed letters width (n / 16) ++ [letters.digit (n % 16)]

/-- The number of digits of `n`, one for zero. -/
def digitCount (n : Nat) : Nat :=
  n.log2 / 4 + 1

/-- Every digit of `n`, filled up with zeros on the left to `width`. -/
def padded (letters : Alphabet) (width n : Nat) : List Char :=
  fixed letters (max width (digitCount n)) n

/-- Bytes as two lower-case digits each, with nothing between them. -/
def ofBytes (bytes : List UInt8) : String :=
  String.ofList (bytes.flatMap fun b => fixed .lower 2 b.toNat)

/-- Words as four lower-case digits each, with nothing between them. -/
def ofWords (words : List UInt16) : String :=
  String.ofList (words.flatMap fun w => fixed .lower 4 w.toNat)

/-- An address the way messages show it: marked as hexadecimal, four digits or more. -/
def address (n : Nat) : String :=
  "0x" ++ String.ofList (padded .upper 4 n)

/-- The value of a digit of either alphabet. -/
def value? (c : Char) : Option Nat :=
  if '0' ≤ c ∧ c ≤ '9' then some (c.toNat - '0'.toNat)
  else if 'a' ≤ c ∧ c ≤ 'f' then some (c.toNat - 'a'.toNat + 10)
  else if 'A' ≤ c ∧ c ≤ 'F' then some (c.toNat - 'A'.toNat + 10)
  else none

/-- Reads pairs of digits, high half first. -/
def pairs? : List Char → Option (List UInt8)
  | [] => some []
  | [_] => none
  | high :: low :: rest => do
      let h ← value? high
      let l ← value? low
      let bytes ← pairs? rest
      return UInt8.ofNat (16 * h + l) :: bytes

/-- The bytes a text of digit pairs stands for. Blanks are left out before pairing. -/
def bytes? (text : String) : Option (List UInt8) :=
  pairs? (text.toList.filter (· ≠ ' '))

/-- Joins each two bytes to a word, the first byte the high one. A last odd byte is left out. -/
def wordsOf : List UInt8 → List UInt16
  | high :: low :: rest => (high.toUInt16 <<< 8 ||| low.toUInt16) :: wordsOf rest
  | _ => []

/-! ## Lengths -/

@[simp] theorem length_fixed (letters : Alphabet) (width n : Nat) :
    (fixed letters width n).length = width := by
  induction width generalizing n with
  | zero => rfl
  | succ width ih => simp [fixed, ih]

end Hex
end ChipEight
