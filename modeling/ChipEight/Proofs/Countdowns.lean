import ChipEight.Countdown
import Mathlib.Algebra.GroupWithZero.Nat
import Mathlib.Data.List.DropRight
import Mathlib.Data.List.Infix

/-!
What countdowns read. A countdown reads what the ticks since have left of the value that was set
last (`Countdown.toNat_foldl_use`), down to zero. In a bank, what counts for a handle is all that
was done through the handles of its family: those that descend from a common one by clones. The
operations alone tell which these are (`TimerBank.Record`), and handles of one family, and no
others, are on the same countdown (`TimerBank.Keeps.related_iff`).
-/
namespace ChipEight

namespace Countdown

/-- What can be done to a countdown. -/
inductive Use where
  | set (value : UInt8)
  | tick (times : Nat)
  deriving DecidableEq

/-- The value a use sets, if it sets one. -/
def Use.value? : Use → Option UInt8
  | set value => some value
  | tick _ => none

/-- How often a use ticks. -/
def Use.times : Use → Nat
  | set _ => 0
  | tick times => times

/-- A countdown after a use. -/
def use (c : Countdown) : Use → Countdown
  | .set value => ⟨value⟩
  | .tick times => c.ticks times

/-- The value that was set last, zero if none was. -/
def lastSet (uses : List Use) : UInt8 :=
  (uses.filterMap Use.value?).getLast?.getD 0

/-- The number of ticks since a value was set last. -/
def ticksSince (uses : List Use) : Nat :=
  ((uses.rtakeWhile fun u => u.value?.isNone).map Use.times).sum

/-- What the ticks since have left of the value that was set last; zero if there were more. -/
def remaining (uses : List Use) : Nat :=
  (lastSet uses).toNat - ticksSince uses

theorem remaining_concat_set (uses : List Use) (value : UInt8) :
    remaining (uses ++ [.set value]) = value.toNat := by
  have hticks : ticksSince (uses ++ [.set value]) = 0 := by
    rw [ticksSince, List.rtakeWhile_concat_neg _ _ _ (by simp [Use.value?])]
    rfl
  rw [remaining, hticks, lastSet, List.filterMap_append]
  simp [Use.value?]

theorem remaining_concat_tick (uses : List Use) (times : Nat) :
    remaining (uses ++ [.tick times]) = remaining uses - times := by
  have hticks : ticksSince (uses ++ [.tick times]) = ticksSince uses + times := by
    rw [ticksSince, List.rtakeWhile_concat_pos _ _ _ (by simp [Use.value?]), List.map_append,
      List.sum_append]
    rfl
  have hset : lastSet (uses ++ [.tick times]) = lastSet uses := by
    rw [lastSet, List.filterMap_append]
    simp [Use.value?, lastSet]
  rw [remaining, hticks, hset, remaining, Nat.sub_sub]

/-- A countdown that starts at zero reads what is left of the value that was set last. -/
theorem toNat_foldl_use (uses : List Use) :
    (uses.foldl use ⟨0⟩).value.toNat = remaining uses := by
  induction uses using List.reverseRecOn with
  | nil => rfl
  | append_singleton uses u ih =>
    rw [List.foldl_append, List.foldl_cons, List.foldl_nil]
    cases u with
    | set value => exact (remaining_concat_set uses value).symm
    | tick times => rw [use, toNat_ticks, ih, remaining_concat_tick]

end Countdown

namespace TimerBank
open Countdown (Use)

/-! ## Families -/

/-- What a list of operations tells about the handles. -/
structure Record where
  /-- For each handle the handles it descends from: itself, the one it is a clone of, and so on. -/
  lines : List (List Nat)
  /-- What was done through which handle, in order. -/
  uses : List (Nat × Use)

namespace Record

/-- One handle, and nothing done through it. -/
def first : Record :=
  ⟨[[0]], []⟩

/-- The handles a handle descends from, itself included; none if it does not exist. -/
def line (r : Record) (handle : Nat) : List Nat :=
  r.lines[handle]?.getD []

/-- Notes that something was done through a handle, if there is such a handle. -/
def through (r : Record) (handle : Nat) (u : Use) : Record :=
  if handle < r.lines.length then { r with uses := r.uses ++ [(handle, u)] } else r

/-- Notes an operation. A new handle descends from itself, and a clone from all that the handle
descends from that it is a clone of. -/
def note (r : Record) : Operation → Record
  | .clone handle =>
      if handle < r.lines.length then
        { r with lines := r.lines ++ [r.lines.length :: r.line handle] }
      else r
  | .fresh => { r with lines := r.lines ++ [[r.lines.length]] }
  | .set handle value => r.through handle (.set value)
  | .tick handle times => r.through handle (.tick times)

/-- The record of some operations on a bank that has one handle at first. -/
def ofOperations (operations : List Operation) : Record :=
  operations.foldl note first

/-- One of the handles descends from the other, or both from a common one. -/
def Related (r : Record) (g h : Nat) : Prop :=
  ∃ a ∈ r.line g, a ∈ r.line h

instance (r : Record) (g h : Nat) : Decidable (r.Related g h) :=
  inferInstanceAs (Decidable (∃ a ∈ r.line g, a ∈ r.line h))

/-- What was done through the handles that are related to one. -/
def usesOf (r : Record) (handle : Nat) : List Use :=
  (r.uses.filter fun (g, _) => r.Related g handle).map Prod.snd

/-- What each handle has to read, in order. -/
def readings (r : Record) : List Nat :=
  (List.range r.lines.length).map fun handle => Countdown.remaining (r.usesOf handle)

theorem lt_of_mem_line {r : Record} {a h : Nat} (ha : a ∈ r.line h) : h < r.lines.length := by
  by_contra hh
  rw [line, List.getElem?_eq_none (Nat.le_of_not_lt hh)] at ha
  cases ha

end Record

/-! ## Handles on countdowns -/

/-- The bank after some operations, with one handle at first. -/
def after (operations : List Operation) : TimerBank :=
  operations.foldl apply single

/-- What was done through the handles on a countdown. -/
def usesOn (b : TimerBank) (r : Record) (k : Nat) : List Use :=
  (r.uses.filter fun (g, _) => b.handles[g]? = some k).map Prod.snd

/-- A bank keeps to a record: related handles, and no others, are on the same countdown, and each
countdown is where the uses of its handles have brought it. -/
structure Keeps (b : TimerBank) (r : Record) : Prop where
  count : b.handles.length = r.lines.length
  placed : ∀ h k : Nat, b.handles[h]? = some k → k < b.countdowns.length
  inherited : ∀ h : Nat, ∀ a ∈ r.line h, b.handles[a]? = b.handles[h]?
  founded : ∀ k : Nat, ∃ a, ∀ h : Nat, b.handles[h]? = some k → a ∈ r.line h
  used : ∀ u ∈ r.uses, u.1 < r.lines.length
  reached : ∀ (k : Nat) (c : Countdown), b.countdowns[k]? = some c →
    c = (b.usesOn r k).foldl Countdown.use ⟨0⟩

theorem getElem?_concat {α : Type} (as : List α) (a : α) (i : Nat) :
    (as ++ [a])[i]? = if i = as.length then some a else as[i]? := by
  split
  · rename_i hi
    rw [hi, List.getElem?_concat_length]
  · rename_i hi
    by_cases hlt : i < as.length
    · rw [List.getElem?_append_left hlt]
    · rw [List.getElem?_eq_none (by simp; omega), List.getElem?_eq_none (by omega)]

theorem line_concat (r : Record) (line : List Nat) (uses : List (Nat × Use)) (h : Nat) :
    Record.line ⟨r.lines ++ [line], uses⟩ h = if h = r.lines.length then line else r.line h := by
  rw [Record.line, getElem?_concat]
  split <;> rfl

/-- Another use counts for the countdown of the handle it was made through. -/
theorem usesOn_concat {b : TimerBank} {h k : Nat} (hh : b.handles[h]? = some k)
    (countdowns : List Countdown) (r : Record) (u : Use) (j : Nat) :
    usesOn { b with countdowns } { r with uses := r.uses ++ [(h, u)] } j =
      b.usesOn r j ++ if k = j then [u] else [] := by
  simp only [usesOn, List.filter_append, List.map_append]
  split
  · rename_i hj
    simp [hh, hj]
  · rename_i hj
    simp [hh, hj]

namespace Keeps
variable {b : TimerBank} {r : Record}

theorem lt_of_getElem? (hk : b.Keeps r) {h k : Nat} (hh : b.handles[h]? = some k) :
    h < r.lines.length := by
  rw [← hk.count]
  exact (List.getElem?_eq_some_iff.mp hh).1

/-- Related handles, and no others, are on the same countdown. -/
theorem related_iff (hk : b.Keeps r) {g h : Nat} (hh : h < r.lines.length) :
    r.Related g h ↔ b.handles[g]? = b.handles[h]? := by
  constructor
  · rintro ⟨a, hg, hh⟩
    rw [← hk.inherited g a hg, hk.inherited h a hh]
  · intro hsame
    obtain ⟨k, hh⟩ : ∃ k, b.handles[h]? = some k :=
      ⟨_, List.getElem?_eq_getElem (by rwa [hk.count])⟩
    obtain ⟨a, ha⟩ := hk.founded k
    exact ⟨a, ha g (hsame.trans hh), ha h hh⟩

theorem usesOf_eq (hk : b.Keeps r) {h k : Nat} (hh : b.handles[h]? = some k) :
    r.usesOf h = b.usesOn r k := by
  rw [Record.usesOf, usesOn]
  refine congrArg _ (List.filter_congr fun u _ => ?_)
  simp only [hk.related_iff (hk.lt_of_getElem? hh), hh]

/-- A handle reads what is left of the last value that was set in its family. -/
theorem toNat_countdown (hk : b.Keeps r) {h : Nat} (hh : h < r.lines.length) :
    (b.countdown h).value.toNat = Countdown.remaining (r.usesOf h) := by
  obtain ⟨k, hk'⟩ : ∃ k, b.handles[h]? = some k :=
    ⟨_, List.getElem?_eq_getElem (by rwa [hk.count])⟩
  obtain ⟨c, hc⟩ : ∃ c, b.countdowns[k]? = some c :=
    ⟨_, List.getElem?_eq_getElem (hk.placed h k hk')⟩
  have hcountdown : b.countdown h = c := by
    rw [countdown, hk', Option.bind_some, hc, Option.getD_some]
  rw [hcountdown, hk.reached k c hc, Countdown.toNat_foldl_use, hk.usesOf_eq hk']

theorem values_eq (hk : b.Keeps r) : b.values.map UInt8.toNat = r.readings := by
  rw [values, List.map_map, hk.count]
  refine List.map_congr_left fun h hh => ?_
  exact hk.toNat_countdown (List.mem_range.mp hh)

/-! ## Operations -/

theorem first_single : single.Keeps Record.first where
  count := rfl
  placed h k hh := by
    cases h with
    | zero => cases hh; decide
    | succ h => cases hh
  inherited h a ha := by
    cases h with
    | zero =>
      obtain rfl := List.mem_singleton.mp ha
      rfl
    | succ h => cases ha
  founded k := by
    refine ⟨0, fun h hh => ?_⟩
    cases h with
    | zero => exact List.mem_singleton_self 0
    | succ h => cases hh
  used u hu := by cases hu
  reached k c hc := by
    cases k with
    | zero => cases hc; rfl
    | succ k => cases hc

/-- A handle is added that descends from itself and from handles that are on its countdown already:
from one that all the others there descend from, too, if there are any. -/
theorem grow (hk : b.Keeps r) {countdowns : List Countdown} {k : Nat} {above : List Nat}
    (hlength : b.countdowns.length ≤ countdowns.length) (hplaced : k < countdowns.length)
    (habove : ∀ a ∈ above, b.handles[a]? = some k)
    (hfounder : ∃ a ∈ r.lines.length :: above, ∀ h : Nat, b.handles[h]? = some k → a ∈ r.line h)
    (hreached : ∀ (j : Nat) (c : Countdown), countdowns[j]? = some c →
      c = (b.usesOn r j).foldl Countdown.use ⟨0⟩) :
    Keeps ⟨countdowns, b.handles ++ [k]⟩ ⟨r.lines ++ [r.lines.length :: above], r.uses⟩ := by
  have hold : ∀ h < r.lines.length, (b.handles ++ [k])[h]? = b.handles[h]? := fun h hh => by
    rw [getElem?_concat, hk.count, if_neg (Nat.ne_of_lt hh)]
  have hnew : (b.handles ++ [k])[r.lines.length]? = some k := by
    rw [getElem?_concat, hk.count, if_pos rfl]
  constructor
  case count => simp [hk.count]
  case placed =>
    intro h j hh
    rw [getElem?_concat] at hh
    split at hh
    · cases hh
      exact hplaced
    · exact Nat.lt_of_lt_of_le (hk.placed h j hh) hlength
  case inherited =>
    intro h a ha
    rw [line_concat] at ha
    split at ha
    · rename_i hh
      rw [hh, hnew]
      rcases List.mem_cons.mp ha with rfl | ha
      · exact hnew
      · rw [hold a (hk.lt_of_getElem? (habove a ha)), habove a ha]
    · have hlt := Record.lt_of_mem_line ha
      have hsame := hk.inherited h a ha
      obtain ⟨j, hj⟩ : ∃ j, b.handles[h]? = some j :=
        ⟨_, List.getElem?_eq_getElem (by rwa [hk.count])⟩
      rw [hold h hlt, hold a (hk.lt_of_getElem? (hsame.trans hj)), hsame]
  case founded =>
    intro j
    by_cases hj : j = k
    · obtain ⟨a, ha, hothers⟩ := hfounder
      refine ⟨a, fun h hh => ?_⟩
      rw [line_concat]
      split
      · exact ha
      · rename_i hh'
        rw [getElem?_concat, hk.count, if_neg hh', hj] at hh
        exact hothers h hh
    · obtain ⟨a, hothers⟩ := hk.founded j
      refine ⟨a, fun h hh => ?_⟩
      rw [getElem?_concat, hk.count] at hh
      rw [line_concat]
      split at hh
      · cases hh
        exact absurd rfl hj
      · rename_i hh'
        rw [if_neg hh']
        exact hothers h hh
  case used =>
    intro u hu
    have := hk.used u hu
    simp only [List.length_append, List.length_singleton]
    omega
  case reached =>
    intro j c hc
    have huses : usesOn ⟨countdowns, b.handles ++ [k]⟩
        ⟨r.lines ++ [r.lines.length :: above], r.uses⟩ j = b.usesOn r j := by
      refine congrArg _ (List.filter_congr fun u hu => ?_)
      simp only [hold _ (hk.used u hu)]
    rw [huses]
    exact hreached j c hc

/-- A clone is on the countdown of its source. -/
theorem clone (hk : b.Keeps r) {h k : Nat} (hh : b.handles[h]? = some k) :
    Keeps { b with handles := b.handles ++ [k] }
      { r with lines := r.lines ++ [r.lines.length :: r.line h] } := by
  refine hk.grow (Nat.le_refl _) (hk.placed h k hh) (fun a ha => ?_) ?_ hk.reached
  · rw [hk.inherited h a ha, hh]
  · obtain ⟨a, ha⟩ := hk.founded k
    exact ⟨a, List.mem_cons_of_mem _ (ha h hh), ha⟩

/-- A fresh handle is alone on its countdown. -/
theorem fresh (hk : b.Keeps r) :
    Keeps ⟨b.countdowns ++ [⟨0⟩], b.handles ++ [b.countdowns.length]⟩
      { r with lines := r.lines ++ [[r.lines.length]] } := by
  have halone : ∀ h : Nat, b.handles[h]? ≠ some b.countdowns.length := fun h hh =>
    Nat.lt_irrefl _ (hk.placed h _ hh)
  refine hk.grow (by simp) (by simp) (by simp) ?_ fun j c hc => ?_
  · exact ⟨_, List.mem_singleton_self _, fun h hh => absurd hh (halone h)⟩
  · rw [getElem?_concat] at hc
    split at hc
    · rename_i hj
      have hnone : b.usesOn r j = [] := by simp [usesOn, hj, halone]
      rw [hnone]
      exact (Option.some.inj hc).symm
    · exact hk.reached j c hc

/-- What is done through a handle is done to the countdown of its family. -/
theorem through (hk : b.Keeps r) (h : Nat) (u : Use) {f : Countdown → Countdown}
    (hf : ∀ c, f c = c.use u) : (b.update h f).Keeps (r.through h u) := by
  rw [update, Record.through]
  cases hh : b.handles[h]? with
  | none =>
    have hout : ¬ h < r.lines.length := by
      rw [← hk.count]
      exact Nat.not_lt.mpr (List.getElem?_eq_none_iff.mp hh)
    rw [if_neg hout]
    exact hk
  | some k =>
    rw [if_pos (hk.lt_of_getElem? hh)]
    constructor
    case count => exact hk.count
    case placed =>
      intro g j hg
      rw [List.length_modify]
      exact hk.placed g j hg
    case inherited => exact hk.inherited
    case founded => exact hk.founded
    case used =>
      intro v hv
      rcases List.mem_append.mp hv with hv | hv
      · exact hk.used v hv
      · rw [List.mem_singleton.mp hv]
        exact hk.lt_of_getElem? hh
    case reached =>
      intro j c hc
      rw [List.getElem?_modify] at hc
      obtain ⟨c', hc', rfl⟩ := Option.map_eq_some_iff.mp hc
      rw [usesOn_concat hh, List.foldl_append, ← hk.reached j c' hc']
      split
      · exact hf c'
      · rfl

theorem apply (hk : b.Keeps r) (op : Operation) : (b.apply op).Keeps (r.note op) := by
  cases op with
  | clone h =>
    rw [TimerBank.apply, Record.note]
    cases hh : b.handles[h]? with
    | none =>
      rw [if_neg (by rw [← hk.count]; exact Nat.not_lt.mpr (List.getElem?_eq_none_iff.mp hh))]
      exact hk
    | some k =>
      rw [if_pos (hk.lt_of_getElem? hh)]
      exact hk.clone hh
  | fresh => exact hk.fresh
  | set h value => exact hk.through h (.set value) fun _ => rfl
  | tick h times => exact hk.through h (.tick times) fun _ => rfl

theorem foldl (hk : b.Keeps r) (operations : List Operation) :
    (operations.foldl TimerBank.apply b).Keeps (operations.foldl Record.note r) := by
  induction operations generalizing b r with
  | nil => exact hk
  | cons op rest ih => exact ih (hk.apply op)

theorem after (operations : List Operation) :
    (after operations).Keeps (.ofOperations operations) :=
  first_single.foldl operations

end Keeps

/-! ## Readings -/

/-- The handle through which an operation changes a countdown, if it changes one. -/
def Operation.through? : Operation → Option Nat
  | clone _ | fresh => none
  | set handle _ | tick handle _ => some handle

/-- A clone reads at once what its source reads. -/
theorem countdown_clone (b : TimerBank) {h : Nat} (hh : h < b.handles.length) :
    (b.apply (.clone h)).countdown b.handles.length = b.countdown h := by
  rw [apply, List.getElem?_eq_getElem hh]
  simp only [countdown, List.getElem?_concat_length, List.getElem?_eq_getElem hh]

theorem countdown_update_of_ne {b : TimerBank} {g h : Nat} (f : Countdown → Countdown)
    (hne : b.handles[g]? ≠ b.handles[h]?) : (b.update g f).countdown h = b.countdown h := by
  rw [update]
  cases hg : b.handles[g]? with
  | none => rfl
  | some k =>
    cases hh : b.handles[h]? with
    | none => simp only [countdown, hh, Option.bind_none]
    | some j =>
      have hkj : k ≠ j := fun hkj => hne (by rw [hg, hh, hkj])
      simp [countdown, hh, List.getElem?_modify, hkj]

/-- An operation on another family does not change what a handle reads. -/
theorem Keeps.countdown_apply {b : TimerBank} {r : Record} (hk : b.Keeps r) {op : Operation}
    {h : Nat} (hh : h < b.handles.length)
    (hother : ∀ g, op.through? = some g → ¬ r.Related g h) :
    (b.apply op).countdown h = b.countdown h := by
  have hname : b.handles[h]? = some b.handles[h] := List.getElem?_eq_getElem hh
  have hdiffer : ∀ g, op.through? = some g → b.handles[g]? ≠ b.handles[h]? := fun g hg hsame =>
    hother g hg ((hk.related_iff (hk.count ▸ hh)).mpr hsame)
  cases op with
  | clone g =>
    rw [TimerBank.apply]
    split
    · simp only [countdown, List.getElem?_append_left hh]
    · rfl
  | fresh =>
    have hplaced := hk.placed h _ hname
    simp only [TimerBank.apply, countdown, List.getElem?_append_left hh, hname, Option.bind_some,
      List.getElem?_append_left hplaced]
  | set g value => exact countdown_update_of_ne _ (hdiffer g rfl)
  | tick g times => exact countdown_update_of_ne _ (hdiffer g rfl)

theorem history_eq (b : TimerBank) (operations : List Operation) :
    b.history operations = operations.inits.tail.map fun done => (done.foldl apply b).values := by
  induction operations generalizing b with
  | nil => rfl
  | cons op rest ih =>
    have hinits : rest.inits = [] :: rest.inits.tail := by
      cases rest <;> simp
    rw [history, ih, List.inits_cons, List.tail_cons, List.map_map, hinits, List.map_cons]
    rfl

/-- **Handles share what was set within their family.** Whatever is cloned, made, set and ticked in
whatever order, after each operation every handle reads what the ticks through related handles have
left of the last value that was set through one, related handles being those that descend from one
another or from a common one by clones. What is done through one handle leaves those alone that are
not related to it, and a clone reads at once what its source reads. -/
theorem handles_read_family (operations : List Operation) :
    let bank := after operations
    let record := Record.ofOperations operations
    ((single.history operations).map (·.map UInt8.toNat) =
        operations.inits.tail.map fun done => (Record.ofOperations done).readings) ∧
      (∀ op, ∀ h < bank.handles.length, (∀ g, op.through? = some g → ¬ record.Related g h) →
        (bank.apply op).countdown h = bank.countdown h) ∧
      ∀ h < bank.handles.length,
        (bank.apply (.clone h)).countdown bank.handles.length = bank.countdown h := by
  intro bank record
  refine ⟨?_, fun op h hh hother => (Keeps.after operations).countdown_apply hh hother,
    fun h hh => bank.countdown_clone hh⟩
  rw [history_eq, List.map_map]
  exact List.map_congr_left fun done _ => (Keeps.after done).values_eq

/-- Two families of two handles. The ticks of one reach a clone that was made before them, and one
that is made after them; the other family has more ticks than its last value allows. -/
theorem handles_read_family_of_two :
    let operations : List Operation := [.clone 0, .fresh, .set 1 60, .tick 0 10, .clone 2, .set 3 5,
      .tick 2 7, .clone 1]
    let bank := after operations
    ((∀ g, (Operation.tick 4 1).through? = some g →
        ¬ (Record.ofOperations operations).Related g 2) ∧ 4 < bank.handles.length) ∧
      ((single.history operations).map (·.map UInt8.toNat)).getLast? = some [50, 50, 0, 0, 50] ∧
      (bank.apply (.tick 4 1)).countdown 2 = bank.countdown 2 ∧
      (bank.apply (.clone 4)).countdown 5 = ⟨50⟩ := by
  intro operations bank
  have hother : ∀ g, (Operation.tick 4 1).through? = some g →
      ¬ (Record.ofOperations operations).Related g 2 := by
    rintro g hg
    obtain rfl := Option.some.inj hg
    decide
  obtain ⟨hreadings, hapart, hclone⟩ := handles_read_family operations
  refine ⟨⟨hother, by decide⟩, ?_, hapart _ 2 (by decide) hother, (hclone 4 (by decide)).trans ?_⟩
  · rw [hreadings]
    decide +kernel
  · decide +kernel

end TimerBank
end ChipEight
