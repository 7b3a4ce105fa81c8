import ChipEight.CommandLine.Settings
import Mathlib.Data.List.Forall2

/-!
How words of a command line may be spelled: names in any case, numbers behind zeros, and options
with their value attached or not. Each spelling is read as what it stands for.
-/
namespace ChipEight

/-! ## Names -/

/-- A name in any mixture of upper and lower case. -/
def AnyCase (text name : String) : Prop :=
  List.Forall₂ (fun c letter => c = letter ∨ c = letter.toUpper) text.toList name.toList

theorem AnyCase.refl (name : String) : AnyCase name name :=
  List.forall₂_same.mpr fun _ _ => .inl rfl

/-- A name in small letters; what is not a letter, as a dash, counts as small. -/
def SmallName (name : String) : Prop :=
  ∀ c ∈ name.toList, c.toLower = c ∧ c.toUpper.toLower = c

instance (name : String) : Decidable (SmallName name) :=
  List.decidableBAll _ name.toList

theorem EdgePolicy.smallName_name (p : EdgePolicy) : SmallName p.name := by
  cases p <;> decide

theorem Log.Level.smallName_name (level : Log.Level) : SmallName level.name := by
  cases level <;> decide

theorem toList_toLower (text : String) : text.toLower.toList = text.toList.map Char.toLower :=
  String.toList_map

theorem AnyCase.toLower_eq {text name : String} (h : AnyCase text name) (hname : SmallName name) :
    text.toLower = name := by
  rw [← String.toList_inj, toList_toLower]
  unfold AnyCase at h
  unfold SmallName at hname
  generalize text.toList = cs at h
  generalize name.toList = letters at h hname
  induction h with
  | nil => rfl
  | @cons c letter cs letters hc _ ih =>
    obtain ⟨hletter, hletters⟩ := List.forall_mem_cons.mp hname
    rw [List.map_cons, ih hletters]
    rcases hc with rfl | rfl
    · rw [hletter.1]
    · rw [hletter.2]

theorem EdgePolicy.parse_of_anyCase {text : String} {p : EdgePolicy} (h : AnyCase text p.name) :
    parse text = .ok p :=
  parse_of_toLower (h.toLower_eq p.smallName_name)

theorem Log.Level.parse?_of_anyCase {text : String} {level : Level}
    (h : AnyCase text level.name) : parse? text = some level :=
  parse?_of_toLower (h.toLower_eq level.smallName_name)

/-! ## Numbers -/

theorem one_le_toNat {n : UInt32} (h : n ≠ 0) : 1 ≤ n.toNat :=
  Nat.one_le_iff_ne_zero.mpr fun hzero => h (UInt32.toNat_inj.mp hzero)

/-- A number in decimal digits, behind any number of zeros. -/
def Decimal.Numeral (text : String) (n : Nat) : Prop :=
  ∃ zeros, text = String.ofList (List.replicate zeros '0') ++ toString n

namespace Decimal.Numeral
variable {text : String} {n : Nat}

theorem of_toString (n : Nat) : Numeral (toString n) n :=
  ⟨0, by simp⟩

theorem toList_eq (h : Numeral text n) :
    ∃ zeros, text.toList = List.replicate zeros '0' ++ Nat.toDigits 10 n := by
  obtain ⟨zeros, rfl⟩ := h
  exact ⟨zeros, by simp [Nat.toList_repr]⟩

theorem isDigit (h : Numeral text n) : ∀ c ∈ text.toList, c.isDigit := by
  obtain ⟨zeros, htext⟩ := h.toList_eq
  intro c hc
  rw [htext, List.mem_append] at hc
  rcases hc with hzero | hdigit
  · rw [List.eq_of_mem_replicate hzero]
    rfl
  · exact Nat.isDigit_of_mem_toDigits (by decide) (by decide) hdigit

theorem natural?_eq (h : Numeral text n) : natural? text.toList = some n := by
  have hdigits : text.toList.all Char.isDigit := List.all_eq_true.mpr h.isDigit
  obtain ⟨zeros, htext⟩ := h.toList_eq
  have hne : text.toList ≠ [] := by
    rw [htext]
    exact List.append_ne_nil_of_right_ne_nil _ Nat.toDigits_ne_nil
  have hvalue : valueFrom 0 text.toList = Nat.ofDigitChars 10 text.toList 0 :=
    Nat.ofDigitChars_eq_foldl.symm
  rw [natural?, if_pos ⟨hne, hdigits⟩, hvalue, htext, Nat.ofDigitChars_append,
    Nat.ofDigitChars_replicate_zero, Nat.mul_zero, Nat.ofDigitChars_ten_toDigits]

theorem positive32?_eq {n : UInt32} (h : Numeral text n.toNat) (hn : n ≠ 0) :
    positive32? text = some n := by
  have hrange : 1 ≤ n.toNat ∧ n.toNat < UInt32.size := ⟨one_le_toNat hn, n.toNat_lt_size⟩
  -- The first character is a digit, so no sign is taken off.
  have hsign : ∀ rest, text.toList ≠ '+' :: rest := fun rest hplus => by
    have hplus := h.isDigit '+' (hplus ▸ List.mem_cons_self)
    exact absurd hplus (by decide)
  unfold positive32?
  split
  · exact absurd ‹_› (hsign _)
  · simp only [h.natural?_eq, if_pos hrange, UInt32.ofNat_toNat]

end Decimal.Numeral

/-! ## Words -/

namespace CommandLine

/-- A text that is not taken for an option. -/
def Plain (text : String) : Prop :=
  text.toList.head? ≠ some '-'

instance (text : String) : Decidable (Plain text) :=
  inferInstanceAs (Decidable (_ ≠ _))

theorem plain_of_anyCase {text name : String} (h : AnyCase text name) (hname : SmallName name)
    (hplain : Plain name) : Plain text := by
  intro hdash
  refine hplain ?_
  rw [← h.toLower_eq hname, toList_toLower, List.head?_map, hdash]
  rfl

theorem plain_of_numeral {text : String} {n : Nat} (h : Decimal.Numeral text n) : Plain text :=
  fun hdash => absurd (h.isDigit _ (List.mem_of_head? hdash)) (by decide)

/-- A name of an option: it has letters, and no equals sign among them. -/
def OptionName (name : String) : Prop :=
  name ≠ "" ∧ '=' ∉ name.toList

instance (name : String) : Decidable (OptionName name) :=
  inferInstanceAs (Decidable (_ ∧ _))

theorem Switch.optionName_name (s : Switch) : OptionName s.name := by
  cases s <;> decide

theorem Parameter.optionName_name (p : Parameter) : OptionName p.name := by
  cases p <;> decide

namespace Word

theorem ofString_of_plain {text : String} (h : Plain text) : ofString text = .plain text := by
  unfold Plain at h
  unfold ofString
  split
  · exact absurd (by simp [*]) h
  · exact absurd (by simp [*]) h
  · exact absurd (by simp [*]) h
  · rfl

theorem ofString_of_toList {text : String} {c : Char} {rest : List Char}
    (h : text.toList = '-' :: '-' :: c :: rest) :
    ofString text =
      .long (String.ofList ((c :: rest).takeWhile (· ≠ '=')))
        (attached? ((c :: rest).dropWhile (· ≠ '='))) := by
  unfold ofString
  rw [h]
  rfl

section
variable {name : String} (h : OptionName name)
include h

/-- A name ends where an equals sign follows. -/
theorem ofString_append (behind : List Char) (hbehind : ∀ c ∈ behind.head?, c = '=') :
    ofString ("--" ++ name ++ String.ofList behind) = .long name (attached? behind) := by
  have hletters : ∀ c ∈ name.toList, decide (c ≠ '=') = true := fun c hc =>
    decide_eq_true fun heq => h.2 (heq ▸ hc)
  have hend : behind.takeWhile (· ≠ '=') = [] ∧ behind.dropWhile (· ≠ '=') = behind := by
    cases behind with
    | nil => exact ⟨rfl, rfl⟩
    | cons c rest => simp [hbehind c rfl]
  obtain ⟨c, rest, hname⟩ := List.exists_cons_of_ne_nil fun hnil =>
    h.1 (String.toList_eq_nil_iff.mp hnil)
  have htext : ("--" ++ name ++ String.ofList behind).toList =
      '-' :: '-' :: c :: (rest ++ behind) := by
    simp [hname]
  rw [ofString_of_toList htext, ← List.cons_append, ← hname,
    List.takeWhile_append_of_pos hletters, List.dropWhile_append_of_pos hletters, hend.1, hend.2,
    List.append_nil, String.ofList_toList]

theorem ofString_name : ofString ("--" ++ name) = .long name none := by
  simpa [attached?] using ofString_append h [] (by simp)

theorem ofString_attached (value : String) :
    ofString ("--" ++ name ++ "=" ++ value) = .long name (some value) := by
  have hword : "--" ++ name ++ "=" ++ value =
      "--" ++ name ++ String.ofList ('=' :: value.toList) := by
    simp [← String.toList_inj]
  rw [hword, ofString_append h ('=' :: value.toList) (by simp), attached?, String.ofList_toList]

end
end Word
end CommandLine
end ChipEight
