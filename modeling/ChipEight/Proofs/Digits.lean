import ChipEight.Proofs.Encoding
import ChipEight.Proofs.Sprites
import ChipEight.Proofs.Stores

/-!
The digit sprites in memory. They lie below the program, where no image reaches, so they stay as
they are as long as the program stores nothing there itself (`Machine.holdsDigits_after`). Pointing
the index register at a digit and drawing five rows then draws the digit, whatever has happened
before (`Machine.digits_stay_drawable`).
-/
namespace ChipEight

/-- The rows of a digit stand together on the sheet, and the digits in order. -/
theorem Font.getElem?_sheet :
    ∀ digit : Fin 16, ∀ k < 5, sheet[5 * digit.val + k]? = (glyph digit)[k]? := by
  decide

namespace Memory

/-! ## Apart from a range -/

/-- A block that reaches no address of a range. -/
def Block.Apart (b : Block) (start length : Nat) : Prop :=
  b.start + b.bytes.length ≤ start ∨ start + length ≤ b.start

instance (b : Block) (start length : Nat) : Decidable (b.Apart start length) :=
  inferInstanceAs (Decidable (_ ∨ _))

theorem byte_put_of_apart {b : Block} {start length a : Nat} (h : b.Apart start length)
    (hfrom : start ≤ a) (hto : a < start + length) (m : Memory) :
    (m.put b.start b.bytes).byte a = m.byte a := by
  rw [byte_put, if_neg]
  rcases h with hbefore | hbehind <;> omega

/-! ## The sheet -/

/-- The digit sprites are where the machine puts them when it is built. -/
def HoldsDigits (m : Memory) : Prop :=
  ∀ k < 80, m.byte (0x050 + k) = Font.sheet[k]?.getD 0

theorem holdsDigits_loadFont (m : Memory) : m.loadFont.HoldsDigits := by
  intro k hk
  have hlength := Font.length_sheet
  rw [loadFont, byte_put, Font.base, hlength, size, if_pos (by omega), Nat.add_sub_cancel_left]

namespace HoldsDigits
variable {m : Memory} (h : m.HoldsDigits)
include h

theorem put {b : Block} (hapart : b.Apart 0x050 80) : (m.put b.start b.bytes).HoldsDigits := by
  intro k hk
  rw [byte_put_of_apart hapart (by omega) (by omega), h k hk]

theorem read : m.read 0x050 80 = .ok Font.sheet := by
  rw [read_eq, if_pos (by decide)]
  refine congrArg Except.ok (List.ext_getElem (by simp [Font.length_sheet]) fun k _ hin => ?_)
  have hk : k < 80 := Font.length_sheet ▸ hin
  rw [List.getElem_map, List.getElem_range]
  show m.byte (0x050 + k) = _
  rw [h k hk, List.getElem?_eq_getElem hin, Option.getD_some]

/-- Memory has the rows of each digit. -/
theorem rows (digit : Fin 16) :
    ((List.range 5).map fun k => m.byte (Font.address digit + k)) = Font.glyph digit := by
  refine List.ext_getElem? fun k => ?_
  by_cases hk : k < 5
  · rw [List.getElem?_map, List.getElem?_range hk, Option.map_some, Font.address, Nat.add_assoc]
    show some (m.byte (0x050 + (5 * digit.val + k))) = _
    have hin : k < (Font.glyph digit).length := by rwa [Font.length_glyph]
    rw [h _ (by omega), Font.getElem?_sheet digit k hk, List.getElem?_eq_getElem hin,
      Option.getD_some]
  · rw [List.getElem?_eq_none (by simpa using hk),
      List.getElem?_eq_none (by simpa [Font.height] using hk)]

end HoldsDigits
end Memory

/-! ## Histories -/

/-- A moment that stores nothing where the digit sprites are. -/
def Moment.SparesDigits (x : Moment) : Prop :=
  ∀ b ∈ x.stored?, b.Apart 0x050 80

instance (x : Moment) : Decidable x.SparesDigits :=
  inferInstanceAs (Decidable (∀ b ∈ x.stored?, _))

namespace Machine

theorem holdsDigits_create {config : Config} (hfont : config.preloadFont = true)
    (random : RandomBytes) : (create config random).memory.HoldsDigits := by
  rw [create, hfont]
  exact Memory.empty.holdsDigits_loadFont

/-- No image reaches down to the digits. -/
theorem holdsDigits_act {m : Machine} {a : Act} (ha : a ≠ .cycle) (h : m.memory.HoldsDigits) :
    (m.act a).memory.HoldsDigits := by
  rw [m.memory_act_of_ne_cycle ha]
  cases a.request.image? with
  | none => exact h
  | some image =>
    refine h.put (b := ⟨Memory.programStart, image⟩) (.inr ?_)
    show 0x050 + 80 ≤ 0x200
    decide

theorem holdsDigits_step {m : Machine} (h : m.memory.HoldsDigits)
    (hspares : m.nextCycle.SparesDigits) : m.step.machine.memory.HoldsDigits := by
  rw [memory_step]
  cases hstored : m.nextCycle.stored? with
  | none => exact h
  | some b => exact h.put (hspares b hstored)

/-- The digits stay where they are unless the program stores something there. -/
theorem holdsDigits_after {config : Config} (hfont : config.preloadFont = true)
    (random : RandomBytes) {requests : List Request}
    (hspares : ∀ x ∈ (create config random).history requests, x.SparesDigits) :
    ((create config random).after requests).memory.HoldsDigits :=
  invariant_after (I := fun m => m.memory.HoldsDigits) holdsDigits_act holdsDigits_step
    (holdsDigits_create hfont random) hspares

end Machine

/-! ## Drawing a digit -/

/-- A sprite that is refused as a whole, since one of its lit bits is outside the display and the
policy is to refuse such. -/
def Stamp.Refused (s : Stamp) : Prop :=
  s.edges = .fault ∧ ∃ row column, (row, column) ∈ s.litBits ∧ s.Outside row column

theorem Stamp.refused?_eq_none_iff_not_refused {s : Stamp} : s.refused? = none ↔ ¬ s.Refused := by
  rw [refused?_eq_none_iff, Refused]
  by_cases hedges : s.edges = .fault
  · simp only [hedges, true_and, not_exists, not_and, ← refuses_iff_outside hedges,
      Bool.not_eq_true]
  · simp [hedges, EdgePolicy.refuses_eq_false_of_ne hedges]

namespace Machine

theorem execute_pointDigit (m : Machine) (x : Register) :
    m.execute (.ofByte 0xF x 0x29) =
      .success { m with
        index := UInt16.ofNat (Font.address ((m.register x).toNat % 16)), pc := m.pc + 2 } := by
  have heffect : (Instruction.pointDigit x).effect m =
      .success { m with index := UInt16.ofNat (Font.address ((m.register x).toNat % 16)) } := rfl
  exact (m.execute_opcode (.pointDigit x)).trans (Instruction.execute_of_success heffect)

/-- Cells that are turned over where a sprite has landed. -/
theorem lit_drawPoints_landed (m : Machine) {s : Stamp} (hheight : s.rows.length ≤ 32) (p : Point) :
    (m.drawPoints s.landed).display.frame.lit p =
      if p ∈ s.landed then !m.display.frame.lit p else m.display.frame.lit p := by
  show (m.display.frame.toggleAll s.landed).lit p = _
  rw [Frame.lit_toggleAll, (Stamp.nodup_landed hheight).count]
  split <;> simp

/-- The sprite of a digit at the place that two registers hold. -/
def digitStamp (m : Machine) (a b : Register) (digit : Fin 16) : Stamp where
  edges := m.config.edges
  x := (m.register a).toNat
  y := (m.register b).toNat
  rows := Font.glyph digit

/-- A machine whose index register points at a digit. -/
def pointedAt (m : Machine) (digit : Fin 16) : Machine :=
  { m with index := UInt16.ofNat (Font.address digit), pc := m.pc + 2 }

theorem toNat_index_pointedAt (m : Machine) (digit : Fin 16) :
    (m.pointedAt digit).index.toNat = Font.address digit := by
  have hsmall : Font.address digit < 2 ^ 16 := by
    simp only [Font.address, Font.base, Font.height]
    omega
  show (UInt16.ofNat (Font.address digit)).toNat = _
  rw [UInt16.toNat_ofNat', Nat.mod_eq_of_lt hsmall]

section
variable {m : Machine} (h : m.memory.HoldsDigits) (a b : Register) (digit : Fin 16)
include h

theorem stamp_pointedAt : (m.pointedAt digit).stamp a b 5 = m.digitStamp a b digit := by
  rw [stamp, digitStamp, toNat_index_pointedAt]
  congr 1
  exact h.rows digit

/-- Five rows are drawn from where the index register points at a digit, or the digit is refused
as a whole. -/
theorem draw_pointedAt :
    let s := m.digitStamp a b digit
    let drawn := (m.pointedAt digit).execute (.ofRegisters 0xD a b 5)
    (¬ s.Refused → drawn.fault = none ∧ ∀ p, drawn.machine.display.frame.lit p =
        if p ∈ s.landed then !m.display.frame.lit p else m.display.frame.lit p) ∧
      (s.Refused → ∃ row column, (row, column) ∈ s.litBits ∧ s.Outside row column ∧
        drawn = .failure (m.pointedAt digit) (.spriteOutOfBounds (s.x + column) (s.y + row))) := by
  intro s drawn
  have hheight : s.rows.length ≤ 32 := (Font.length_glyph digit).trans_le (by decide)
  have hstamp : (m.pointedAt digit).stamp a b 5 = s := stamp_pointedAt h a b digit
  have hdraw : drawn = (Instruction.draw a b 5).execute (m.pointedAt digit) :=
    (m.pointedAt digit).execute_opcode (.draw a b 5)
  have hrange : (m.pointedAt digit).index.toNat + (5 : Fin 16).val ≤ Memory.size := by
    rw [toNat_index_pointedAt]
    show 0x050 + 5 * digit.val + 5 ≤ 4096
    omega
  have hfault : drawn.fault = s.refused?.map s.refusal := by
    rw [hdraw, fault_draw hrange, hstamp]
  rw [← Stamp.refused?_eq_none_iff_not_refused, ← not_not (a := s.Refused),
    ← Stamp.refused?_eq_none_iff_not_refused]
  constructor
  · intro hnone
    have hok : drawn.fault = none := by rw [hfault, hnone, Option.map_none]
    refine ⟨hok, fun p => ?_⟩
    rw [hdraw] at hok
    rw [hdraw, execute_draw_of_ok hok, hstamp]
    exact lit_drawPoints_landed _ hheight p
  · intro hsome
    obtain ⟨⟨row, column⟩, hfirst⟩ := Option.ne_none_iff_exists'.mp hsome
    obtain ⟨⟨hmem, hrefuses⟩, -⟩ := Stamp.refused?_first hfirst
    rw [hfirst] at hfault
    have hmachine := ((m.pointedAt digit).execute_failsCleanly _ _ hfault).1
    refine ⟨row, column, hmem, EdgePolicy.outside_of_refuses hrefuses, ?_⟩
    show drawn = ⟨m.pointedAt digit, some _⟩
    rw [← hmachine]
    exact congrArg (Outcome.mk drawn.machine) hfault

end

/-- **Preloaded digits stay drawable.** In a machine that is built with the digit sprites, whatever
images its host loads or tries to load and whatever the program does, as long as it stores nothing
over them: the sprites are still there. Pointing the index register at the digit in the low nibble
of a register succeeds, and drawing five rows then never lacks a byte. It turns over just the cells
that the lit bits of the digit land on, and fails only where the policy is to refuse cells and one
of these bits is outside the display. -/
theorem digits_stay_drawable (config : Config) (hfont : config.preloadFont = true)
    (random : RandomBytes) (requests : List Request)
    (hspares : ∀ x ∈ (create config random).history requests, x.SparesDigits) :
    let m := (create config random).after requests
    m.memory.read 0x050 80 = .ok Font.sheet ∧
      ∀ x a b : Register,
        let s : Stamp :=
          ⟨config.edges, (m.register a).toNat, (m.register b).toNat,
            Font.glyph (Fin.ofNat 16 (m.register x).toNat)⟩
        let pointed := m.execute (.ofByte 0xF x 0x29)
        let drawn := pointed.machine.execute (.ofRegisters 0xD a b 5)
        pointed.fault = none ∧
          (¬ s.Refused → drawn.fault = none ∧ ∀ p, drawn.machine.display.frame.lit p =
              if p ∈ s.landed then !m.display.frame.lit p else m.display.frame.lit p) ∧
            (s.Refused → ∃ row column, (row, column) ∈ s.litBits ∧ s.Outside row column ∧
              drawn = .failure pointed.machine
                (.spriteOutOfBounds (s.x + column) (s.y + row))) := by
  have hholds := holdsDigits_after hfont random hspares
  have hconfig : ((create config random).after requests).config = config :=
    config_after _ requests
  generalize (create config random).after requests = m at hholds hconfig
  subst hconfig
  intro m'
  refine ⟨hholds.read, fun x a b => ?_⟩
  intro s pointed drawn
  have hpointed : pointed = .success (m.pointedAt (Fin.ofNat 16 (m.register x).toNat)) :=
    m.execute_pointDigit x
  refine ⟨by rw [hpointed, Outcome.fault_success], ?_⟩
  simp only [drawn, hpointed, Outcome.machine_success]
  exact draw_pointedAt hholds a b (Fin.ofNat 16 (m.register x).toNat)

/-- A program that stores three digits right below the sprites, with a register that is above
fifteen; an image that breaks off is not loaded. -/
theorem digits_stay_drawable_behind_store :
    let requests := [Request.load [0x60, 0xAB, 0xA0, 0x4D, 0xF0, 0x33], .step 3,
      .loadFrom [.data [0xFF], .broken "gone"]]
    let m := (create {} (.ofList [])).after requests
    let drawn := (m.execute (.ofByte 0xF 0 0x29)).machine.execute (.ofRegisters 0xD 1 1 5)
    (({} : Config).preloadFont = true ∧
        ∀ x ∈ (create {} (.ofList [])).history requests, x.SparesDigits) ∧
      m.memory.byte 0x04F = 1 ∧ m.memory.read 0x050 80 = .ok Font.sheet ∧ drawn.fault = none ∧
      drawn.machine.display.frame.lit ⟨2, 0⟩ = true ∧
      drawn.machine.display.frame.lit ⟨3, 0⟩ = false := by
  intro requests m drawn
  have hrun : (∀ x ∈ (create {} (.ofList [])).history requests, x.SparesDigits) ∧
      m.memory.byte 0x04F = 1 ∧ m.register 0 = 0xAB ∧ m.register 1 = 0 ∧
      m.display.frame.lit ⟨2, 0⟩ = false ∧ m.display.frame.lit ⟨3, 0⟩ = false := by
    decide +kernel
  obtain ⟨hspares, hstored, hdigit, hcorner, hleft, hright⟩ := hrun
  obtain ⟨hsheet, hdraws⟩ := digits_stay_drawable {} rfl (.ofList []) requests hspares
  obtain ⟨-, hdrawn, -⟩ := hdraws 0 1 1
  have hwrap : EdgePolicy.wrap ≠ .fault := by decide
  obtain ⟨hok, hlit⟩ := hdrawn fun h => hwrap h.1
  refine ⟨⟨rfl, hspares⟩, hstored, hsheet, hok, ?_, ?_⟩
  · show drawn.machine.display.frame.lit _ = _
    rw [hlit, hdigit, hcorner, hleft]
    decide
  · show drawn.machine.display.frame.lit _ = _
    rw [hlit, hdigit, hcorner, hright]
    decide

end Machine
end ChipEight
