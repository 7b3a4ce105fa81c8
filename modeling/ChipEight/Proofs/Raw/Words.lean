import ChipEight.Instruction
import ChipEight.Memory.Basic

/-!
Bare words. A machine that is built of words and arrays alone has nothing in its types that keeps
an index inside its array or a sum inside its word; each use is checked where it happens, and a
check that fails is a trap, written `none`. The operands of an opcode are cut out of its word with
masks. The lemmas say when a checked operation goes through, and what it gives then.
-/
namespace ChipEight

namespace Raw

/-! ## Numbers -/

/-- The number of values a size or an index can have. -/
def sizeLimit : Nat :=
  USize.size

/-- The exact result of a sum or a product, which has to be a value of its word. -/
def within? (limit exact : Nat) : Option Nat :=
  if exact < limit then some exact else none

/-- A difference, which must not fall below zero. -/
def less? (a b : Nat) : Option Nat :=
  if b ≤ a then some (a - b) else none

theorem le_sizeLimit : 0x100000000 ≤ sizeLimit :=
  USize.le_size

theorem lt_sizeLimit {n : Nat} (h : n ≤ 0x10000) : n < sizeLimit := by
  have := le_sizeLimit
  omega

/-- A block of bytes takes up less than half of what a size can count, so its range has an end. -/
theorem hasEnd_of_lt (address : UInt16) {length : Nat} (h : length < sizeLimit / 2) :
    Memory.HasEnd address length := by
  have haddress := address.toNat_lt
  have hlimit := le_sizeLimit
  show address.toNat + length < sizeLimit
  omega

theorem within?_eq {limit exact : Nat} (h : exact < limit) : within? limit exact = some exact :=
  if_pos h

theorem less?_eq {a b : Nat} (h : b ≤ a) : less? a b = some (a - b) :=
  if_pos h

/-! ## Arrays -/

section Arrays

variable {α : Type} {n : Nat}

/-- Writes one element. -/
def put? (xs : Vector α n) (k : Nat) (a : α) : Option (Vector α n) :=
  if h : k < n then some (xs.set k a h) else none

/-- Writes elements one after the other. -/
def putAll? (xs : Vector α n) : Nat → List α → Option (Vector α n)
  | _, [] => some xs
  | k, a :: rest => do
      let xs ← put? xs k a
      putAll? xs (k + 1) rest

/-- The elements from `start` up to `stop`. -/
def slice? (xs : Vector α n) (start stop : Nat) : Option (List α) :=
  if start ≤ stop ∧ stop ≤ n then some ((xs.toList.drop start).take (stop - start)) else none

/-- Overwrites the elements from `start` up to `stop`, which have to be as many as are given. -/
def splice? (xs : Vector α n) (start stop : Nat) (data : List α) : Option (Vector α n) :=
  if start ≤ stop ∧ stop ≤ n ∧ data.length = stop - start then putAll? xs start data else none

theorem put?_eq {xs : Vector α n} {k : Nat} (h : k < n) (a : α) :
    put? xs k a = some (xs.set k a h) :=
  dif_pos h

theorem setIfInBounds_eq_set (xs : Vector α n) {k : Nat} (h : k < n) (a : α) :
    xs.setIfInBounds k a = xs.set k a h := by
  simp [Vector.setIfInBounds, Vector.set, Array.setIfInBounds, h]

/-- Elements that have room go through, and each lands where its number says. -/
theorem putAll?_spec (xs : Vector α n) {start : Nat} {data : List α}
    (h : start + data.length ≤ n) :
    ∃ ys, putAll? xs start data = some ys ∧
      ∀ j, ys[j]? = if start ≤ j ∧ j < start + data.length then data[j - start]? else xs[j]? := by
  induction data generalizing xs start with
  | nil =>
    refine ⟨xs, rfl, fun j => ?_⟩
    rw [if_neg (by simp only [List.length_nil]; omega)]
  | cons a rest ih =>
    simp only [List.length_cons] at h
    have hstart : start < n := by omega
    have hrest : start + 1 + rest.length ≤ n := by omega
    obtain ⟨ys, hys, hget⟩ := ih (xs.set start a) hrest
    refine ⟨ys, by simp [putAll?, put?_eq hstart, hys], fun j => ?_⟩
    rw [hget, Vector.getElem?_set]
    simp only [List.length_cons]
    by_cases hj : start = j
    · subst hj
      rw [if_neg (by omega), if_pos rfl, if_pos (by omega), Nat.sub_self, List.getElem?_cons_zero]
    · by_cases hin : start + 1 ≤ j ∧ j < start + 1 + rest.length
      · have hout : start ≤ j ∧ j < start + (rest.length + 1) := by omega
        rw [if_pos hin, if_pos hout, show j - start = j - (start + 1) + 1 by omega,
          List.getElem?_cons_succ]
      · have hout : ¬(start ≤ j ∧ j < start + (rest.length + 1)) := by omega
        rw [if_neg hin, if_neg hout, if_neg hj]

theorem splice?_spec (xs : Vector α n) {start stop : Nat} {data : List α}
    (hstop : stop ≤ n) (hlen : start + data.length = stop) :
    ∃ ys, splice? xs start stop data = some ys ∧
      ∀ j, ys[j]? = if start ≤ j ∧ j < stop then data[j - start]? else xs[j]? := by
  subst hlen
  have hall : start ≤ start + data.length ∧ start + data.length ≤ n ∧
      data.length = start + data.length - start := by omega
  rw [splice?, if_pos hall]
  exact putAll?_spec xs hstop

theorem slice?_eq (xs : Vector α n) {start length : Nat} (h : start + length ≤ n) :
    slice? xs start (start + length) = some ((xs.toList.drop start).take length) := by
  rw [slice?, if_pos ⟨Nat.le_add_right _ _, h⟩, Nat.add_sub_cancel_left]

end Arrays

end Raw

/-! ## Operands -/

namespace Opcode

def rawX (op : Opcode) : Nat :=
  ((op.word &&& 0x0F00) >>> 8).toNat

def rawY (op : Opcode) : Nat :=
  ((op.word &&& 0x00F0) >>> 4).toNat

def rawN (op : Opcode) : Nat :=
  (op.word &&& 0x000F).toUInt8.toNat

def rawByte (op : Opcode) : UInt8 :=
  (op.word &&& 0x00FF).toUInt8

def rawAddress (op : Opcode) : UInt16 :=
  op.word &&& 0x0FFF

/-- A nibble that is masked and then shifted down is a remainder. -/
theorem shiftRight_and_nibble (w k : Nat) : (w &&& 15 <<< k) >>> k = (w >>> k) % 16 := by
  rw [Nat.shiftRight_and_distrib, Nat.shiftLeft_shiftRight]
  exact Nat.and_two_pow_sub_one_eq_mod _ 4

theorem rawX_eq (op : Opcode) : op.rawX = op.x.val := by
  simp only [rawX, x, UInt16.toNat_shiftRight, UInt16.toNat_and, Fin.val_ofNat]
  show (op.word.toNat &&& 15 <<< 8) >>> 8 = _
  rw [shiftRight_and_nibble, Nat.shiftRight_eq_div_pow]

theorem rawY_eq (op : Opcode) : op.rawY = op.y.val := by
  simp only [rawY, y, UInt16.toNat_shiftRight, UInt16.toNat_and, Fin.val_ofNat]
  show (op.word.toNat &&& 15 <<< 4) >>> 4 = _
  rw [shiftRight_and_nibble, Nat.shiftRight_eq_div_pow]

theorem rawN_eq (op : Opcode) : op.rawN = op.n.val := by
  simp only [rawN, n, UInt16.toNat_toUInt8, UInt16.toNat_and, Fin.val_ofNat]
  show (op.word.toNat &&& 2 ^ 4 - 1) % 256 = _
  rw [Nat.and_two_pow_sub_one_eq_mod]
  omega

theorem rawByte_eq (op : Opcode) : op.rawByte = op.byte := by
  apply UInt8.toNat_inj.mp
  simp only [rawByte, byte, UInt16.toNat_toUInt8, UInt16.toNat_and, UInt8.toNat_ofNat']
  show (op.word.toNat &&& 2 ^ 8 - 1) % 256 = _
  rw [Nat.and_two_pow_sub_one_eq_mod]
  omega

theorem toNat_rawAddress (op : Opcode) : op.rawAddress.toNat = op.address.val := by
  simp only [rawAddress, address, UInt16.toNat_and, Fin.val_ofNat]
  exact Nat.and_two_pow_sub_one_eq_mod _ 12

theorem rawAddress_eq (op : Opcode) : op.rawAddress = UInt16.ofNat op.address.val := by
  rw [← toNat_rawAddress, UInt16.ofNat_toNat]

end Opcode
end ChipEight
