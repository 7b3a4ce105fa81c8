import ChipEight.Proofs.Spelling

/-!
Drafts of settings. What a word does to a draft is told by its spelling (`Draft.take_switch` and the
like), and a draft by what it becomes once what it holds is settled (`Draft.settle_cases`). No
number it takes in is zero, and no name of a program is empty (`Draft.Sound`), so settings that are
accepted have none of these either (`Settings.accepted_ne_zero`).
-/
namespace ChipEight.CommandLine

/-! ## Results -/

theorem exists_of_map_eq_ok {ε α β : Type} {x : Except ε α} {f : α → β} {b : β}
    (h : x.map f = .ok b) : ∃ a, x = .ok a ∧ b = f a := by
  cases x with
  | error => cases h
  | ok a => exact ⟨a, rfl, (Except.ok.inj h).symm⟩

theorem exists_of_bind_eq_ok {ε α β : Type} {x : Except ε α} {f : α → Except ε β} {b : β}
    (h : x.bind f = .ok b) : ∃ a, x = .ok a ∧ f a = .ok b := by
  cases x with
  | error => cases h
  | ok a => exact ⟨a, rfl, h⟩

theorem of_guard_eq_ok {ε α : Type} {c : Prop} [Decidable c] {error : ε} {a b : α}
    (h : (if c then .error error else .ok a : Except ε α) = .ok b) : ¬ c ∧ b = a := by
  split at h
  · cases h
  · exact ⟨‹_›, (Except.ok.inj h).symm⟩

theorem getD_ne {α : Type} {o : Option α} {a default : α} (h : o ≠ some a)
    (hdefault : default ≠ a) : o.getD default ≠ a := by
  cases o with
  | none => exact hdefault
  | some b => exact fun hb => h (congrArg some hb)

/-! ## Names of options -/

theorem Switch.ofName?_name (s : Switch) : ofName? s.name = some s := by
  cases s <;> decide

theorem Switch.ofName?_name_parameter (p : Parameter) : ofName? p.name = none := by
  cases p <;> decide

theorem Parameter.ofName?_name (p : Parameter) : ofName? p.name = some p := by
  cases p <;> decide

/-! ## Reading one word -/

namespace Draft
variable {d : Draft}

section
variable (h : d.plainOnly = false)
include h

theorem take_of_plain {text : String} (htext : Plain text) : d.take text = d.takePlain text := by
  simp [take, h, Word.ofString_of_plain htext]

theorem take_switch (s : Switch) : d.take ("--" ++ s.name) = d.settle.bind (·.turnOn s) := by
  simp [take, h, Word.ofString_name s.optionName_name, takeLong, s.ofName?_name]

theorem take_parameter (p : Parameter) :
    d.take ("--" ++ p.name) = d.hold (.valueOf p none) := by
  simp [take, h, Word.ofString_name p.optionName_name, takeLong, p.ofName?_name,
    Switch.ofName?_name_parameter p]

theorem take_attached (p : Parameter) (text : String) :
    d.take ("--" ++ p.name ++ "=" ++ text) = d.settle.bind (·.supply p text) := by
  simp [take, h, Word.ofString_attached p.optionName_name, takeLong, p.ofName?_name,
    Switch.ofName?_name_parameter p]

end

/-! ## What a draft can become -/

variable {e : Draft}

theorem eq_of_fresh {α : Type} {p : Parameter} {old : Option α} {text : String}
    {value result : Option α} (h : fresh p old text value = .ok result) : result = value := by
  unfold fresh at h
  split at h
  · cases h
  · split at h
    · cases h
    · exact (Except.ok.inj h).symm

theorem setRom_cases {text : String} (h : d.setRom text = .ok e) :
    text ≠ "" ∧ e = { d with rom := some text } :=
  of_guard_eq_ok h

theorem turnOn_cases {s : Switch} (h : d.turnOn s = .ok e) :
    e = { d with strict := true } ∨ e = { d with indexOverflowFlag := true } ∨
      e = { d with noFont := true } := by
  cases s with
  | help => cases h
  | strict => exact .inl (of_guard_eq_ok h).2
  | indexOverflowFlag => exact .inr (.inl (of_guard_eq_ok h).2)
  | noFont => exact .inr (.inr (of_guard_eq_ok h).2)

theorem supply_cases {p : Parameter} {text : String} (h : d.supply p text = .ok e) :
    (∃ v, e = { d with edges := v }) ∨ (∃ v ≠ some 0, e = { d with clockHz := v }) ∨
      (∃ v ≠ some 0, e = { d with scale := v }) ∨ ∃ v, e = { d with logLevel := v } := by
  cases p with
  | spriteBounds =>
    obtain ⟨v, -, hv⟩ := exists_of_map_eq_ok h
    exact .inl ⟨v, hv⟩
  | clockHz =>
    obtain ⟨v, hfresh, hv⟩ := exists_of_map_eq_ok h
    exact .inr (.inl ⟨v, eq_of_fresh hfresh ▸ Decimal.positive32?_ne_zero text, hv⟩)
  | scale =>
    obtain ⟨v, hfresh, hv⟩ := exists_of_map_eq_ok h
    exact .inr (.inr (.inl ⟨v, eq_of_fresh hfresh ▸ Decimal.positive32?_ne_zero text, hv⟩))
  | logLevel =>
    obtain ⟨v, -, hv⟩ := exists_of_map_eq_ok h
    exact .inr (.inr (.inr ⟨v, hv⟩))

theorem hasRom_of_held_ne (h : ∀ text, d.held ≠ some (.rom text)) : d.hasRom = d.rom.isSome := by
  unfold hasRom
  split
  · simp [*]
  · exact absurd ‹_› (h _)
  · rename_i hrom _
    cases hd : d.rom with
    | none => rfl
    | some text => exact absurd hd (hrom text)

/-- Nothing is held once a draft is settled, which neither decides how words are read nor reads the
name of the program again. -/
theorem settle_cases (h : d.settle = .ok e) :
    e.held = none ∧ e.plainOnly = d.plainOnly ∧ e.rom.isSome = d.hasRom := by
  unfold settle at h
  split at h
  · obtain rfl := Except.ok.inj h
    exact ⟨‹_›, rfl, (hasRom_of_held_ne (by simp [*])).symm⟩
  · rename_i text hheld
    obtain ⟨-, rfl⟩ := setRom_cases h
    refine ⟨rfl, rfl, ?_⟩
    unfold hasRom
    cases d.rom <;> simp [hheld]
  · cases h
  · have hrom : d.rom.isSome = d.hasRom := (hasRom_of_held_ne (by simp [*])).symm
    obtain ⟨v, rfl⟩ | ⟨v, -, rfl⟩ | ⟨v, -, rfl⟩ | ⟨v, rfl⟩ := supply_cases h <;>
      exact ⟨rfl, rfl, hrom⟩

/-- A draft that holds something instead of what it may have held. -/
def holding (d : Draft) (held : Held) : Draft :=
  { d with held }

theorem hold_of_settle (h : d.settle = .ok e) (held : Held) :
    d.hold held = .ok (e.holding held) := by
  rw [hold, h]
  rfl

/-- A draft that can be settled does not lack a value. -/
theorem takePlain_of_settle (h : d.settle = .ok e) (word : String) :
    d.takePlain word = d.takeRom word := by
  unfold takePlain
  split
  · rename_i p hheld
    rw [settle, hheld] at h
    cases h
  · rfl

theorem settle_of_held_eq_none (h : d.held = none) : d.settle = .ok d := by
  unfold settle
  rw [h]

section
variable (hheld : d.held = none)
include hheld

theorem held_turnOn {s : Switch} (h : d.turnOn s = .ok e) : e.held = none := by
  obtain rfl | rfl | rfl := turnOn_cases h <;> exact hheld

theorem held_supply {p : Parameter} {text : String} (h : d.supply p text = .ok e) :
    e.held = none := by
  obtain ⟨v, rfl⟩ | ⟨v, -, rfl⟩ | ⟨v, -, rfl⟩ | ⟨v, rfl⟩ := supply_cases h <;> exact hheld

/-- Holding something and settling it is taking it in. -/
theorem settle_holding_rom (text : String) : (d.holding (.rom text)).settle = d.setRom text := by
  cases d
  cases hheld
  rfl

theorem settle_holding_valueOf (p : Parameter) (text : String) :
    (d.holding (.valueOf p (some text))).settle = d.supply p text := by
  cases d
  cases hheld
  rfl

end
end Draft

/-! ## What is never accepted -/

namespace Draft

/-- What has been taken in can be used: numbers are not zero, and the name of the program is not
empty. -/
structure Sound (d : Draft) : Prop where
  rom : d.rom ≠ some ""
  clockHz : d.clockHz ≠ some 0
  scale : d.scale ≠ some 0

namespace Sound
variable {d e : Draft} (h : d.Sound)
include h

theorem setRom {text : String} (hset : d.setRom text = .ok e) : e.Sound := by
  obtain ⟨htext, rfl⟩ := setRom_cases hset
  exact { h with rom := fun hempty => htext (Option.some.inj hempty) }

theorem turnOn {s : Switch} (hon : d.turnOn s = .ok e) : e.Sound := by
  obtain rfl | rfl | rfl := turnOn_cases hon <;> exact ⟨h.rom, h.clockHz, h.scale⟩

theorem supply {p : Parameter} {text : String} (hsupply : d.supply p text = .ok e) : e.Sound := by
  obtain ⟨v, rfl⟩ | ⟨v, hv, rfl⟩ | ⟨v, hv, rfl⟩ | ⟨v, rfl⟩ := supply_cases hsupply
  · exact ⟨h.rom, h.clockHz, h.scale⟩
  · exact ⟨h.rom, hv, h.scale⟩
  · exact ⟨h.rom, h.clockHz, hv⟩
  · exact ⟨h.rom, h.clockHz, h.scale⟩

theorem with_held (held : Option Held) : Sound { d with held } :=
  ⟨h.rom, h.clockHz, h.scale⟩

theorem settle (hsettle : d.settle = .ok e) : e.Sound := by
  unfold Draft.settle at hsettle
  split at hsettle
  · exact Except.ok.inj hsettle ▸ h
  · exact (h.with_held none).setRom hsettle
  · cases hsettle
  · exact (h.with_held none).supply hsettle

theorem hold {held : Held} (hhold : d.hold held = .ok e) : e.Sound := by
  obtain ⟨d', hsettle, rfl⟩ := exists_of_map_eq_ok hhold
  exact (h.settle hsettle).with_held _

theorem takeRom {word : String} (htake : d.takeRom word = .ok e) : e.Sound := by
  unfold Draft.takeRom at htake
  split at htake
  · cases htake
  · exact h.hold htake

theorem takePlain {word : String} (htake : d.takePlain word = .ok e) : e.Sound := by
  unfold Draft.takePlain at htake
  split at htake
  · exact Except.ok.inj htake ▸ h.with_held _
  · exact h.takeRom htake

theorem takeLong {word name : String} {value : Option String}
    (htake : d.takeLong word name value = .ok e) : e.Sound := by
  unfold Draft.takeLong at htake
  split at htake
  · obtain ⟨d', hsettle, hon⟩ := exists_of_bind_eq_ok htake
    exact (h.settle hsettle).turnOn hon
  · cases htake
  · obtain ⟨d', hsettle, hsupply⟩ := exists_of_bind_eq_ok htake
    exact (h.settle hsettle).supply hsupply
  · exact h.hold htake
  · cases htake

theorem takeShort {word : String} {first : Char} (htake : d.takeShort word first = .ok e) :
    e.Sound := by
  unfold Draft.takeShort at htake
  split at htake
  · obtain ⟨d', hsettle, hon⟩ := exists_of_bind_eq_ok htake
    exact (h.settle hsettle).turnOn hon
  · cases htake

theorem take {word : String} (htake : d.take word = .ok e) : e.Sound := by
  unfold Draft.take at htake
  split at htake
  · exact h.takeRom htake
  · split at htake
    · exact h.takePlain htake
    · exact Except.ok.inj htake ▸ ⟨h.rom, h.clockHz, h.scale⟩
    · exact h.takeLong htake
    · exact h.takeShort htake

theorem foldlM_take {words : List String} (htake : words.foldlM Draft.take d = .ok e) :
    e.Sound := by
  induction words generalizing d with
  | nil => exact Except.ok.inj htake ▸ h
  | cons word words ih =>
    obtain ⟨d', hword, hwords⟩ := exists_of_bind_eq_ok htake
    exact ih (h.take hword) hwords

theorem finish {s : Settings} (hfinish : d.finish = .ok s) :
    s.clockHz ≠ 0 ∧ s.scale ≠ 0 ∧ s.rom ≠ "" := by
  unfold Draft.finish at hfinish
  split at hfinish
  · cases hfinish
  · rename_i rom hrom
    obtain rfl := Except.ok.inj hfinish
    refine ⟨getD_ne h.clockHz (by decide), getD_ne h.scale (by decide), fun hempty => h.rom ?_⟩
    rw [hrom]
    exact congrArg some hempty

end Sound
end Draft

theorem Settings.accepted_ne_zero {words : List String} {s : Settings}
    (h : parse words = .ok s) :
    s.clockHz ≠ 0 ∧ s.scale ≠ 0 ∧ s.rom ≠ "" := by
  have hempty : ({} : Draft).Sound := ⟨nofun, nofun, nofun⟩
  obtain ⟨d, hwords, h⟩ := exists_of_bind_eq_ok h
  obtain ⟨settled, hsettle, hfinish⟩ := exists_of_bind_eq_ok h
  exact ((hempty.foldlM_take hwords).settle hsettle).finish hfinish

end ChipEight.CommandLine
