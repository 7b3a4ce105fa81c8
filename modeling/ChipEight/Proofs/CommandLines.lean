import ChipEight.Proofs.Drafts
import Mathlib.Data.List.Nodup

/-!
Command lines. All settings can be told on a command line, in any order and spelling
(`Settings.parsed_in_any_spelling`). A name or a value that stands as a word of its own is at first
only held, so what has been read is told by the draft once it is settled: the words of an item take
in the item (`Item.exists_foldlM_take`), and an item tells one more subject
(`Settings.takeIn_told`).
-/
namespace ChipEight.CommandLine

/-! ## Items -/

/-- What an item of a command line is about. -/
inductive Subject where
  | rom
  | switch (s : Switch)
  | parameter (p : Parameter)
  deriving DecidableEq

namespace Subject

def all : List Subject :=
  [.rom, .switch .strict, .switch .indexOverflowFlag, .switch .noFont, .switch .help,
    .parameter .spriteBounds, .parameter .clockHz, .parameter .scale, .parameter .logLevel]

theorem mem_all (subject : Subject) : subject ∈ all := by
  rcases subject with _ | s | p
  · decide
  · cases s <;> decide
  · cases p <;> decide

theorem nodup_all : all.Nodup := by
  decide

end Subject

/-- A part of a command line that is about one subject. -/
inductive Item where
  /-- The name of the program. -/
  | rom (text : String)
  | switch (s : Switch)
  /-- A parameter and its value, two words. -/
  | apart (p : Parameter) (text : String)
  /-- A parameter and its value with an equals sign between them, one word. -/
  | attached (p : Parameter) (text : String)
  deriving DecidableEq

namespace Item

def subject : Item → Subject
  | rom _ => .rom
  | switch s => .switch s
  | apart p _ | attached p _ => .parameter p

/-- The words an item stands on the command line as. -/
def words : Item → List String
  | rom text => [text]
  | switch s => ["--" ++ s.name]
  | apart p text => ["--" ++ p.name, text]
  | attached p text => ["--" ++ p.name ++ "=" ++ text]

end Item

namespace Settings

/-- Settings with a program, whose name is not taken for an option, with cycles in each second and
cells that can be seen. -/
structure Usable (s : Settings) : Prop where
  rom_ne_empty : s.rom ≠ ""
  rom_plain : Plain s.rom
  clockHz_ne_zero : s.clockHz ≠ 0
  scale_ne_zero : s.scale ≠ 0

/-- Settings that a switch has to be given for. -/
def Wants (s : Settings) : Switch → Prop
  | .strict => s.config.unknown = .fail
  | .indexOverflowFlag => s.config.overflow = .setFlag
  | .noFont => s.config.preloadFont = false
  | .help => False

instance (s : Settings) : DecidablePred s.Wants
  | .strict => inferInstanceAs (Decidable (_ = _))
  | .indexOverflowFlag => inferInstanceAs (Decidable (_ = _))
  | .noFont => inferInstanceAs (Decidable (_ = _))
  | .help => inferInstanceAs (Decidable False)

/-- Texts that the value of a parameter may be written as: names in any case, and numbers behind
zeros. -/
def Spells (s : Settings) (text : String) : Parameter → Prop
  | .spriteBounds => AnyCase text s.config.edges.name
  | .clockHz => Decimal.Numeral text s.clockHz.toNat
  | .scale => Decimal.Numeral text s.scale.toNat
  | .logLevel => AnyCase text s.logLevel.name

/-- Subjects a command line must not leave out: the name of the program, switches, and parameters
with values that are not their defaults. -/
def Needs (s : Settings) : Subject → Prop
  | .rom => True
  | .switch w => s.Wants w
  | .parameter .spriteBounds => s.config.edges ≠ .wrap
  | .parameter .clockHz => s.clockHz ≠ 500
  | .parameter .scale => s.scale ≠ 10
  | .parameter .logLevel => s.logLevel ≠ .info

end Settings

/-- An item that tells something about settings, and tells it right. -/
def Item.Tells (s : Settings) : Item → Prop
  | rom text => text = s.rom
  | switch w => s.Wants w
  | apart p text | attached p text => s.Spells text p

/-- Items that make up a command line for settings: each tells something about them, none tells it
again, and none that is needed is missing. -/
structure Expresses (items : List Item) (s : Settings) : Prop where
  tells : ∀ item ∈ items, item.Tells s
  once : (items.map Item.subject).Nodup
  complete : ∀ subject, s.Needs subject → subject ∈ items.map Item.subject

/-! ## Reading an item -/

namespace Item

/-- Takes in an item as a whole, where nothing is held. -/
def takeIn (d : Draft) : Item → Except UsageError Draft
  | rom text => if d.rom.isSome then .error (.unknownArgument text) else d.setRom text
  | switch s => d.turnOn s
  | apart p text | attached p text => d.supply p text

/-- An item whose words that stand alone are not taken for options. -/
def Readable : Item → Prop
  | rom text | apart _ text => Plain text
  | switch _ | attached _ _ => True

/-- The words of an item are read as the item, once what is held at last is settled. -/
theorem exists_foldlM_take {item : Item} (hitem : item.Readable) {d e e' : Draft}
    (hsettle : d.settle = .ok e) (hplain : e.plainOnly = false) (htake : item.takeIn e = .ok e') :
    ∃ d', item.words.foldlM Draft.take d = .ok d' ∧ d'.settle = .ok e' := by
  obtain ⟨hheld, hmode, hrom⟩ := Draft.settle_cases hsettle
  rw [hplain, eq_comm] at hmode
  cases item with
  | rom text =>
    simp only [takeIn] at htake
    split at htake
    · cases htake
    rename_i hnew
    -- A draft that can be settled does not wait for a value, so the word is the program's name.
    have hword : d.take text = .ok (e.holding (.rom text)) := by
      rw [Draft.take_of_plain hmode hitem, Draft.takePlain_of_settle hsettle, Draft.takeRom,
        ← hrom, if_neg hnew, Draft.hold_of_settle hsettle]
    refine ⟨e.holding (.rom text), by simp [words, hword], ?_⟩
    rw [Draft.settle_holding_rom hheld]
    exact htake
  | switch s =>
    have hword : d.take ("--" ++ s.name) = .ok e' := by
      rw [Draft.take_switch hmode, hsettle]
      exact htake
    refine ⟨e', by simp [words, hword], ?_⟩
    exact Draft.settle_of_held_eq_none (Draft.held_turnOn hheld htake)
  | attached p text =>
    have hword : d.take ("--" ++ p.name ++ "=" ++ text) = .ok e' := by
      rw [Draft.take_attached hmode, hsettle]
      exact htake
    refine ⟨e', by simp [words, hword], ?_⟩
    exact Draft.settle_of_held_eq_none (Draft.held_supply hheld htake)
  | apart p text =>
    -- The parameter is held without its value, and the next word is taken for the value.
    have hname : d.take ("--" ++ p.name) = .ok (e.holding (.valueOf p none)) := by
      rw [Draft.take_parameter hmode, Draft.hold_of_settle hsettle]
    have hvalue : (e.holding (.valueOf p none)).take text =
        .ok (e.holding (.valueOf p (some text))) :=
      Draft.take_of_plain (d := e.holding _) hplain hitem
    refine ⟨e.holding (.valueOf p (some text)), ?_, ?_⟩
    · rw [words, List.foldlM_cons, hname]
      show List.foldlM Draft.take (e.holding (.valueOf p none)) [text] = _
      simp [hvalue]
    · rw [Draft.settle_holding_valueOf hheld]
      exact htake

end Item

/-! ## Telling settings -/

namespace Settings
variable {s : Settings}

/-- What is known of settings when only some subjects have been told. -/
def told (s : Settings) (subjects : List Subject) : Draft where
  rom := if .rom ∈ subjects then some s.rom else none
  strict := .switch .strict ∈ subjects
  indexOverflowFlag := .switch .indexOverflowFlag ∈ subjects
  noFont := .switch .noFont ∈ subjects
  edges := if .parameter .spriteBounds ∈ subjects then some s.config.edges else none
  clockHz := if .parameter .clockHz ∈ subjects then some s.clockHz else none
  scale := if .parameter .scale ∈ subjects then some s.scale else none
  logLevel := if .parameter .logLevel ∈ subjects then some s.logLevel else none

section
variable {subjects : List Subject}

theorem setRom_told (hrom : s.rom ≠ "") :
    (s.told subjects).setRom s.rom = .ok (s.told (subjects ++ [.rom])) := by
  simp [Draft.setRom, told, hrom]

theorem turnOn_told {w : Switch} (hw : s.Wants w) (hnew : .switch w ∉ subjects) :
    (s.told subjects).turnOn w = .ok (s.told (subjects ++ [.switch w])) := by
  cases w with
  | help => exact hw.elim
  | strict => simp [Draft.turnOn, told, hnew]
  | indexOverflowFlag => simp [Draft.turnOn, told, hnew]
  | noFont => simp [Draft.turnOn, told, hnew]

theorem supply_told (hs : s.Usable) {p : Parameter} {text : String} (htext : s.Spells text p)
    (hnew : .parameter p ∉ subjects) :
    (s.told subjects).supply p text = .ok (s.told (subjects ++ [.parameter p])) := by
  cases p with
  | spriteBounds =>
    simp [Draft.supply, told, Draft.fresh, hnew, EdgePolicy.parse_of_anyCase htext,
      Except.toOption, Except.map]
  | clockHz =>
    simp [Draft.supply, told, Draft.fresh, hnew,
      Decimal.Numeral.positive32?_eq htext hs.clockHz_ne_zero, Except.map]
  | scale =>
    simp [Draft.supply, told, Draft.fresh, hnew,
      Decimal.Numeral.positive32?_eq htext hs.scale_ne_zero, Except.map]
  | logLevel =>
    simp [Draft.supply, told, Draft.fresh, hnew, Log.Level.parse?_of_anyCase htext, Except.map]

/-- An item tells one more subject. -/
theorem takeIn_told (hs : s.Usable) {item : Item} (htells : item.Tells s)
    (hnew : item.subject ∉ subjects) :
    item.takeIn (s.told subjects) = .ok (s.told (subjects ++ [item.subject])) := by
  cases item with
  | rom text =>
    obtain rfl : text = s.rom := htells
    have hnone : (s.told subjects).rom = none := if_neg hnew
    rw [Item.takeIn, hnone]
    exact setRom_told hs.rom_ne_empty
  | switch w => exact turnOn_told htells hnew
  | apart p text | attached p text => exact supply_told hs htells hnew

theorem plain_of_spells {p : Parameter} {text : String} (h : s.Spells text p) : Plain text := by
  cases p with
  | spriteBounds =>
    refine plain_of_anyCase h s.config.edges.smallName_name ?_
    cases s.config.edges <;> decide
  | clockHz | scale => exact plain_of_numeral h
  | logLevel =>
    refine plain_of_anyCase h s.logLevel.smallName_name ?_
    cases s.logLevel <;> decide

theorem readable_of_tells (hs : s.Usable) {item : Item} (h : item.Tells s) : item.Readable := by
  cases item with
  | rom text =>
    obtain rfl : text = s.rom := h
    exact hs.rom_plain
  | switch _ | attached _ _ => trivial
  | apart p text => exact plain_of_spells h

/-- Items that tell different subjects are read one behind the other. -/
theorem exists_foldlM_take (hs : s.Usable) {items : List Item}
    (htells : ∀ item ∈ items, item.Tells s)
    (honce : (subjects ++ items.map Item.subject).Nodup) {d : Draft}
    (hsettle : d.settle = .ok (s.told subjects)) :
    ∃ d', (items.flatMap Item.words).foldlM Draft.take d = .ok d' ∧
      d'.settle = .ok (s.told (subjects ++ items.map Item.subject)) := by
  -- Along the items, the draft once settled is what the subjects so far tell.
  induction items generalizing subjects d with
  | nil => exact ⟨d, rfl, by simpa using hsettle⟩
  | cons item items ih =>
    obtain ⟨htell, htells⟩ := List.forall_mem_cons.mp htells
    have hnew : item.subject ∉ subjects := fun hmem =>
      (List.nodup_cons.mp (List.nodup_middle.mp honce)).1 (List.mem_append_left _ hmem)
    rw [List.map_cons, List.append_cons] at honce
    obtain ⟨d₁, hwords, hsettle₁⟩ :=
      Item.exists_foldlM_take (readable_of_tells hs htell) hsettle rfl (takeIn_told hs htell hnew)
    obtain ⟨d', hrest, hsettle'⟩ := ih htells honce hsettle₁
    refine ⟨d', ?_, ?_⟩
    · rw [List.flatMap_cons, List.foldlM_append, hwords]
      exact hrest
    · rw [List.map_cons, List.append_cons]
      exact hsettle'

theorem getD_told {α : Type} {subject : Subject} {value default : α}
    (h : value ≠ default → subject ∈ subjects) :
    (if subject ∈ subjects then some value else none).getD default = value := by
  split
  · rfl
  · by_contra hne
    exact absurd (h (Ne.symm hne)) ‹_›

section
variable (hswitches : ∀ w, .switch w ∈ subjects → s.Wants w)
  (hneeds : ∀ subject, s.Needs subject → subject ∈ subjects)
include hswitches hneeds

theorem switch_mem_iff (w : Switch) : .switch w ∈ subjects ↔ s.Wants w :=
  ⟨hswitches w, hneeds (.switch w)⟩

theorem config_told : (s.told subjects).config = s.config := by
  have hstrict := switch_mem_iff hswitches hneeds .strict
  have hflag := switch_mem_iff hswitches hneeds .indexOverflowFlag
  have hfont := switch_mem_iff hswitches hneeds .noFont
  have hedges : (s.told subjects).edges.getD .wrap = s.config.edges :=
    getD_told (hneeds (.parameter .spriteBounds))
  obtain ⟨rom, ⟨unknown, edges, overflow, preloadFont⟩, clockHz, scale, logLevel⟩ := s
  rw [Draft.config, hedges]
  congr 1
  · cases unknown <;> simp_all [told, Wants]
  · cases overflow <;> simp_all [told, Wants]
  · cases preloadFont <;> simp_all [told, Wants]

/-- Once all that is needed has been told, nothing is left to be told. -/
theorem finish_told : (s.told subjects).finish = .ok s := by
  have hrom : (s.told subjects).rom = some s.rom := if_pos (hneeds .rom trivial)
  have hclock : (s.told subjects).clockHz.getD 500 = s.clockHz :=
    getD_told (hneeds (.parameter .clockHz))
  have hscale : (s.told subjects).scale.getD 10 = s.scale :=
    getD_told (hneeds (.parameter .scale))
  have hlevel : (s.told subjects).logLevel.getD .info = s.logLevel :=
    getD_told (hneeds (.parameter .logLevel))
  rw [Draft.finish, hrom]
  show Except.ok _ = _
  rw [config_told hswitches hneeds, hclock, hscale, hlevel]

end
end

theorem parse_of_expresses (hs : s.Usable) {items : List Item} (h : Expresses items s) :
    parse (items.flatMap Item.words) = .ok s := by
  have hstart : ({} : Draft).settle = .ok (s.told []) := rfl
  obtain ⟨d, hwords, hsettle⟩ := exists_foldlM_take hs h.tells (by simpa using h.once) hstart
  have hswitches : ∀ w, .switch w ∈ items.map Item.subject → s.Wants w := by
    intro w hw
    obtain ⟨item, hmem, hsubject⟩ := List.mem_map.mp hw
    have htells := h.tells item hmem
    cases item with
    | switch w' =>
      obtain rfl := Subject.switch.inj hsubject
      exact htells
    | rom _ | apart _ _ | attached _ _ => cases hsubject
  rw [parse, hwords]
  show d.settle.bind Draft.finish = _
  rw [hsettle]
  exact finish_told hswitches h.complete

/-! ## A command line for all settings -/

/-- A text for the value of a parameter. -/
def text (s : Settings) : Parameter → String
  | .spriteBounds => s.config.edges.name
  | .clockHz => toString s.clockHz.toNat
  | .scale => toString s.scale.toNat
  | .logLevel => s.logLevel.name

theorem spells_text (s : Settings) (p : Parameter) : s.Spells (s.text p) p := by
  cases p with
  | spriteBounds | logLevel => exact .refl _
  | clockHz | scale => exact .of_toString _

/-- The item about a subject, if there is anything to tell. -/
def item? (s : Settings) : Subject → Option Item
  | .rom => some (.rom s.rom)
  | .switch w => if s.Wants w then some (.switch w) else none
  | .parameter p => some (.attached p (s.text p))

theorem item?_cases {subject : Subject} {item : Item} (h : s.item? subject = some item) :
    item.subject = subject ∧ item.Tells s := by
  cases subject with
  | rom =>
    obtain rfl := Option.some.inj h
    exact ⟨rfl, rfl⟩
  | switch w =>
    obtain ⟨hw, hitem⟩ := Option.ite_none_right_eq_some.mp h
    obtain rfl := Option.some.inj hitem
    exact ⟨rfl, hw⟩
  | parameter p =>
    obtain rfl := Option.some.inj h
    exact ⟨rfl, s.spells_text p⟩

theorem exists_item?_of_needs {subject : Subject} (h : s.Needs subject) :
    ∃ item, s.item? subject = some item := by
  cases subject with
  | rom => exact ⟨_, rfl⟩
  | switch w => exact ⟨_, if_pos h⟩
  | parameter p => exact ⟨_, rfl⟩

/-- Settings told subject by subject, defaults and all. -/
def items (s : Settings) : List Item :=
  Subject.all.filterMap s.item?

theorem items_express (s : Settings) : Expresses s.items s where
  tells item h := by
    obtain ⟨subject, -, hitem⟩ := List.mem_filterMap.mp h
    exact (item?_cases hitem).2
  once := by
    rw [items, List.map_filterMap]
    refine Subject.nodup_all.filterMap fun a b subject ha hb => ?_
    obtain ⟨item, hitem, rfl⟩ := Option.map_eq_some_iff.mp ha
    obtain ⟨item', hitem', hsubject⟩ := Option.map_eq_some_iff.mp hb
    rw [← (item?_cases hitem).1, ← (item?_cases hitem').1, hsubject]
  complete subject h := by
    obtain ⟨item, hitem⟩ := exists_item?_of_needs h
    exact List.mem_map.mpr
      ⟨item, List.mem_filterMap.mpr ⟨subject, subject.mem_all, hitem⟩, (item?_cases hitem).1⟩

/-! ## All settings -/

/-- **Command lines express every setting.** For all settings with a program that is not taken for
an option, with cycles in each second and with cells that can be seen: there are items that express
them. All items that do are read as these settings, in whatever order they stand and however they
are spelled: a value attached or apart, names in any case, numbers behind zeros, defaults left out
or told. And whatever is accepted has cycles in each second, cells that can be seen and a program
with a name, so the time between two cycles can be told. -/
theorem parsed_in_any_spelling :
    (∀ s : Settings, s.Usable →
      (∃ items, Expresses items s) ∧
        ∀ items, Expresses items s → parse (items.flatMap Item.words) = .ok s) ∧
      ∀ (words : List String) (s : Settings), parse words = .ok s →
        1 ≤ s.clockHz.toNat ∧ 1 ≤ s.scale.toNat ∧ s.rom ≠ "" := by
  refine ⟨fun s hs => ⟨⟨s.items, s.items_express⟩, fun _ => parse_of_expresses hs⟩, ?_⟩
  intro words s h
  obtain ⟨hclock, hscale, hrom⟩ := accepted_ne_zero h
  exact ⟨one_le_toNat hclock, one_le_toNat hscale, hrom⟩

/-- Both ways to give a value, mixed cases and orders, and zeros in front. -/
theorem parsed_in_any_spelling_mixed :
    let s : Settings := ⟨"games/g", ⟨.fail, .clip, .setFlag, false⟩, 4294967295, 10, .trace⟩
    let items : List Item := [.attached .clockHz "004294967295", .switch .noFont,
      .apart .logLevel "TrAcE", .switch .strict, .apart .scale "010", .rom "games/g",
      .attached .spriteBounds "CLip", .switch .indexOverflowFlag]
    s.Usable ∧ Expresses items s ∧
      parse ["--clock-hz=004294967295", "--no-font", "--log-level", "TrAcE", "--strict", "--scale",
        "010", "games/g", "--sprite-bounds=CLip", "--index-overflow-flag"] = .ok s ∧
      1 ≤ s.clockHz.toNat := by
  intro s items
  have hs : s.Usable := ⟨by decide, by decide, by decide, by decide⟩
  have hitems : Expresses items s := by
    refine ⟨?_, by decide, ?_⟩
    · simp only [items, List.forall_mem_cons]
      refine ⟨⟨2, by decide +kernel⟩, rfl, ?_, rfl, ⟨1, by decide +kernel⟩, rfl, ?_, rfl, nofun⟩
      · show List.Forall₂ _ "TrAcE".toList "trace".toList
        simp
      · show List.Forall₂ _ "CLip".toList "clip".toList
        simp
    · rintro (_ | w | p) hneeds
      · decide
      · cases w with
        | help => exact hneeds.elim
        | strict | indexOverflowFlag | noFont => decide
      · cases p <;> decide
  have hparse := (parsed_in_any_spelling.1 s hs).2 items hitems
  exact ⟨hs, hitems, hparse, (parsed_in_any_spelling.2 _ s hparse).1⟩

end Settings
end ChipEight.CommandLine
