import ChipEight.Log
import Mathlib.Algebra.Group.Nat.Defs
import Mathlib.Data.List.Basic

/-!
What log lines tell. Digits of a fixed number can be read back (`Hex.number_fixed`), so the line of
a cycle gives away the opcode, every register and both addresses that it was written from
(`Log.Entry.line_cycle_inj`). The first word of a line is its level, so a log can be cut down to
what a threshold lets through when there is nothing left of it but its lines (`Log.lines_visible`).
-/
namespace ChipEight

/-! ## Digits -/

namespace Hex

/-- The number some digits stand for, the first the most significant. -/
def number (digits : List Char) : Nat :=
  digits.foldl (fun n c => 16 * n + (value? c).getD 0) 0

theorem value?_digit (letters : Alphabet) : ∀ d < 16, value? (letters.digit d) = some d := by
  cases letters <;> decide

theorem number_append (digits : List Char) (c : Char) :
    number (digits ++ [c]) = 16 * number digits + (value? c).getD 0 := by
  rw [number, List.foldl_append]
  rfl

/-- The digits that a number is written in give back as much of it as they have room for. -/
theorem number_fixed (letters : Alphabet) (width n : Nat) :
    number (fixed letters width n) = n % 16 ^ width := by
  induction width generalizing n with
  | zero => exact (Nat.mod_one n).symm
  | succ width ih =>
    rw [fixed, number_append, ih, value?_digit letters _ (Nat.mod_lt n (by decide)),
      Option.getD_some, Nat.pow_succ', Nat.mod_mul, Nat.add_comm]

/-- Numbers that fit are written in the same digits only if they are the same. -/
theorem fixed_inj (letters : Alphabet) {width a b : Nat} (ha : a < 16 ^ width)
    (hb : b < 16 ^ width) : fixed letters width a = fixed letters width b ↔ a = b := by
  refine ⟨fun h => ?_, fun h => by rw [h]⟩
  rw [← Nat.mod_eq_of_lt ha, ← Nat.mod_eq_of_lt hb, ← number_fixed letters, ← number_fixed letters,
    h]

end Hex

/-! ## Texts of one length -/

/-- Texts made of two pieces agree just if the pieces do, where the first pieces or the last ones
are of one length. -/
theorem append_inj_of_length {s s' t t' : String}
    (hlength : s.length = s'.length ∨ t.length = t'.length) :
    s ++ t = s' ++ t' ↔ s = s' ∧ t = t' := by
  simp only [← String.toList_inj, String.toList_append]
  simp only [← String.length_toList] at hlength
  refine ⟨fun h => ?_, fun ⟨hs, ht⟩ => by rw [hs, ht]⟩
  rcases hlength with hfirst | hlast
  · exact List.append_inj h hfirst
  · exact List.append_inj' h hlast

/-- As many pieces of one length, with the same text between them, tell each of the pieces. -/
theorem intercalate_inj_of_length {between : String} {len : Nat} {pieces pieces' : List String}
    (hcount : pieces.length = pieces'.length) (hlen : ∀ piece ∈ pieces, piece.length = len)
    (hlen' : ∀ piece ∈ pieces', piece.length = len) :
    between.intercalate pieces = between.intercalate pieces' ↔ pieces = pieces' := by
  refine ⟨fun h => ?_, fun h => by rw [h]⟩
  induction pieces generalizing pieces' with
  | nil => exact (List.length_eq_zero_iff.mp hcount.symm).symm
  | cons piece rest ih =>
    obtain ⟨piece', rest', rfl⟩ := List.exists_cons_of_length_eq_add_one hcount.symm
    rw [List.forall_mem_cons] at hlen hlen'
    rw [List.length_cons, List.length_cons, Nat.add_right_cancel_iff] at hcount
    cases rest with
    | nil =>
      obtain rfl : rest' = [] := List.length_eq_zero_iff.mp hcount.symm
      rw [String.intercalate_singleton, String.intercalate_singleton] at h
      rw [h]
    | cons second rest =>
      obtain ⟨second', rest', rfl⟩ := List.exists_cons_of_length_eq_add_one hcount.symm
      rw [String.intercalate_cons_cons, String.intercalate_cons_cons, String.append_assoc,
        String.append_assoc, append_inj_of_length (.inl (hlen.1.trans hlen'.1.symm)),
        String.append_right_inj] at h
      rw [h.1, ih hcount hlen.2 hlen'.2 h.2]

namespace Log

/-! ## Wordings -/

namespace Entry

@[simp] theorem length_wordText (w : UInt16) : (wordText w).length = 4 := by
  simp [wordText]

@[simp] theorem length_byteText (b : UInt8) : (byteText b).length = 2 := by
  simp [byteText]

theorem wordText_inj {v w : UInt16} : wordText v = wordText w ↔ v = w := by
  rw [wordText, wordText, String.ofList_inj,
    Hex.fixed_inj _ v.toNat_lt w.toNat_lt, UInt16.toNat_inj]

theorem byteText_inj {a b : UInt8} : byteText a = byteText b ↔ a = b := by
  rw [byteText, byteText, String.ofList_inj,
    Hex.fixed_inj _ a.toNat_lt b.toNat_lt, UInt8.toNat_inj]

theorem registersText_inj {r r' : Vector UInt8 16} :
    registersText r = registersText r' ↔ r = r' := by
  have hlen : ∀ values : Vector UInt8 16, ∀ piece ∈ values.toList.map byteText,
      piece.length = 2 := by
    intro values piece hpiece
    obtain ⟨b, -, rfl⟩ := List.mem_map.mp hpiece
    exact length_byteText b
  rw [registersText, registersText, String.append_left_inj, String.append_right_inj,
    intercalate_inj_of_length (by simp) (hlen r) (hlen r'),
    List.map_inj_right fun a b => byteText_inj.mp, Vector.toList_inj]

theorem text_cycle (op : Opcode) (r : Vector UInt8 16) (i pc : UInt16) :
    (cycle op r i pc).text =
      wordText op.word ++ " v" ++ registersText r ++ " i" ++ wordText i ++ " pc" ++ wordText pc :=
  rfl

/-- The line of a cycle tells the opcode, the registers, the index and the program counter. -/
theorem line_cycle_inj {op op' : Opcode} {r r' : Vector UInt8 16} {i i' pc pc' : UInt16} :
    (cycle op r i pc).line = (cycle op' r' i' pc').line ↔
      op = op' ∧ r = r' ∧ i = i' ∧ pc = pc' := by
  have hlen (v w : UInt16) : (wordText v).length = (wordText w).length := by
    rw [length_wordText, length_wordText]
  have hword : op.word = op'.word ↔ op = op' := by rw [Opcode.mk.injEq]
  rw [line, line, level, level, String.append_right_inj, text_cycle, text_cycle]
  -- The addresses stand at the end and the opcode at the beginning; the registers are what is left.
  rw [append_inj_of_length (.inr (hlen _ _)), String.append_left_inj,
    append_inj_of_length (.inr (hlen _ _)), String.append_left_inj, String.append_assoc,
    String.append_assoc, append_inj_of_length (.inl (hlen _ _)), String.append_right_inj,
    wordText_inj, wordText_inj, wordText_inj, registersText_inj, hword, and_assoc, and_assoc]

end Entry

/-! ## Levels -/

/-- The level a line names in its first word. -/
def lineLevel? (line : String) : Option Level :=
  Level.parse? (String.ofList (line.toList.takeWhile (· ≠ ' ')))

theorem Level.toList_toUpper_name (level : Level) :
    level.name.toUpper.toList = level.name.toList.map Char.toUpper :=
  String.toList_map

/-- A line begins with its level in upper case, and a blank. -/
theorem Entry.line_eq_append {e : Entry} {level : Level} {head : String} (hlevel : e.level = level)
    (hhead : head.toList = level.name.toList.map Char.toUpper ++ [' ']) :
    e.line = head ++ e.text := by
  have hword : e.level.name.toUpper ++ " " = head := by
    rw [← String.toList_inj, String.toList_append, Level.toList_toUpper_name, hlevel, hhead]
    rfl
  rw [line, hword]

theorem Entry.line_cycle (op : Opcode) (r : Vector UInt8 16) (i pc : UInt16) :
    (cycle op r i pc).line = "TRACE " ++ (cycle op r i pc).text :=
  line_eq_append (show _ = Level.trace from rfl) (by decide)

theorem Entry.line_leftOut (op : Opcode) (pc : UInt16) :
    (leftOut op pc).line = "WARN " ++ (leftOut op pc).text :=
  line_eq_append (show _ = Level.warn from rfl) (by decide)

theorem Level.toLower_toUpper_name (level : Level) : level.name.toUpper.toLower = level.name := by
  have hlower : level.name.toUpper.toLower.toList = level.name.toUpper.toList.map Char.toLower :=
    String.toList_map
  rw [← String.toList_inj, hlower, toList_toUpper_name]
  cases level <;> decide

theorem lineLevel?_line (e : Entry) : lineLevel? e.line = some e.level := by
  have hword : ' ' ∉ e.level.name.toUpper.toList := by
    rw [Level.toList_toUpper_name]
    cases e.level <;> decide
  have hfirst : e.line.toList.takeWhile (· ≠ ' ') = e.level.name.toUpper.toList := by
    rw [Entry.line, String.toList_append, String.toList_append, List.append_assoc,
      List.takeWhile_append_of_pos fun c hc => decide_eq_true (ne_of_mem_of_not_mem hc hword)]
    exact List.append_nil _
  rw [lineLevel?, hfirst, String.ofList_toList]
  exact Level.parse?_of_toLower e.level.toLower_toUpper_name

/-- Whether a threshold lets a line through. -/
def lineVisible (threshold : Level) (line : String) : Bool :=
  (lineLevel? line).any fun level => level.rank ≤ threshold.rank

/-- What a threshold lets through of a log can be told from its lines. -/
theorem lines_visible (threshold : Level) (entries : List Entry) :
    (visible threshold entries).map Entry.line =
      (entries.map Entry.line).filter (lineVisible threshold) := by
  rw [List.filter_map, visible]
  congr 2
  funext e
  rw [Function.comp_apply, lineVisible, lineLevel?_line]
  rfl

theorem visible_trace (entries : List Entry) : visible .trace entries = entries := by
  refine List.filter_eq_self.mpr fun e _ => decide_eq_true ?_
  cases e <;> simp [Entry.level, Level.rank]

end Log
end ChipEight
