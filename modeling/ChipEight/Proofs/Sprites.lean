import ChipEight.Proofs.Parity

/-!
Sprites bit by bit. `Stamp.litBits` lists the lit bits of a sprite in the order in which they are
drawn, and `Stamp.landed` the points they land on. A sprite is less wide and less high than the
display, so no two of its bits land on the same point, not even around the edges. So a draw turns
over just the cells a bit has landed on, and whether it turns any of them off can be seen from the
frame before (`Machine.draw_turns_over_landed`).
-/
namespace ChipEight

/-- Points that are all different do not get in each other's way. -/
theorem Frame.collides_of_nodup {points : List Point} (h : points.Nodup) (f : Frame) :
    f.collides points = points.any f.lit := by
  induction points generalizing f with
  | nil => rfl
  | cons p rest ih =>
    obtain ⟨hp, hrest⟩ := List.nodup_cons.mp h
    have hkept : ∀ q ∈ rest, (f.toggle p).lit q = f.lit q := fun q hq => by
      have hne : p ≠ q := fun heq => hp (heq ▸ hq)
      rw [lit_toggle, decide_eq_false hne, Bool.xor_false]
    rw [collides, ih hrest, List.any_cons]
    congr 1
    rw [Bool.eq_iff_iff, List.any_eq_true, List.any_eq_true]
    exact exists_congr fun q => and_congr_right fun hq => by rw [hkept q hq]

namespace Stamp

/-! ## Lit bits -/

/-- Row and column of the lit bits, the top row first and each row from left to right. -/
def litBits (s : Stamp) : List (Nat × Nat) :=
  (List.range s.rows.length ×ˢ List.range 8).filter fun (row, column) => s.bit row column

theorem mem_litBits {s : Stamp} {row column : Nat} :
    (row, column) ∈ s.litBits ↔
      row < s.rows.length ∧ column < 8 ∧ s.bit row column = true := by
  rw [litBits, List.mem_filter, List.mem_product, List.mem_range, List.mem_range, and_assoc]

/-- The lit bits are listed in the order of rows, and within a row in the order of columns. -/
theorem pairwise_litBits (s : Stamp) : s.litBits.Pairwise (Prod.Lex (· < ·) (· < ·)) := by
  refine List.Pairwise.filter _ ?_
  show ((List.range s.rows.length).flatMap fun row => (List.range 8).map (Prod.mk row)).Pairwise _
  rw [List.pairwise_flatMap]
  constructor
  · intro row _
    rw [List.pairwise_map]
    exact List.pairwise_lt_range.imp fun hlt => .right row hlt
  · refine List.pairwise_lt_range.imp fun hlt b hb b' hb' => ?_
    obtain ⟨column, -, rfl⟩ := List.mem_map.mp hb
    obtain ⟨column', -, rfl⟩ := List.mem_map.mp hb'
    exact .left column column' hlt

/-- The lit bits are the sprite's lit cells, in the same order. -/
theorem litCells_rows (s : Stamp) : Sprite.litCells s.rows = s.litBits.map Prod.swap := by
  have hrows : s.rows.zipIdx =
      (List.range s.rows.length).map fun row => (s.rows[row]?.getD 0, row) := by
    refine List.ext_getElem (by simp) fun row _ h => ?_
    have hrow : row < s.rows.length := by simpa using h
    simp [hrow]
  show _ = (((List.range s.rows.length).flatMap fun row =>
    (List.range 8).map (Prod.mk row)).filter _).map Prod.swap
  rw [Sprite.litCells, hrows, List.flatMap_map, List.filter_flatMap, List.map_flatMap]
  refine List.flatMap_congr fun row _ => ?_
  rw [List.filter_map, List.map_map]
  rfl

/-! ## Where they land -/

/-- The point that the bit in this row and column lands on, if it lands anywhere. -/
def landing? (s : Stamp) (row column : Nat) : Option Point :=
  s.edges.landing? (s.x + column) (s.y + row)

/-- The points that lit bits land on. -/
def landed (s : Stamp) : List Point :=
  s.litBits.filterMap fun (row, column) => s.landing? row column

/-- The first lit bit that is refused, if one is. -/
def refused? (s : Stamp) : Option (Nat × Nat) :=
  s.litBits.find? fun (row, column) => s.edges.refuses (s.x + column) (s.y + row)

/-- What is said of a bit that is refused. -/
def refusal (s : Stamp) : Nat × Nat → Fault
  | (row, column) => .spriteOutOfBounds (s.x + column) (s.y + row)

/-- A stamp is refused at the first lit bit that is, and lands as a whole if none is. -/
theorem points?_eq (s : Stamp) :
    s.points? =
      match s.refused? with
      | some b => .error (s.refusal b)
      | none => .ok s.landed := by
  rw [points?, litCells_rows, EdgePolicy.placeAll_eq, List.find?_map, List.filterMap_map]
  show (match s.refused?.map Prod.swap with | some cell => _ | none => _) = _
  cases s.refused? <;> rfl

theorem refused?_eq_none_iff {s : Stamp} :
    s.refused? = none ↔ ∀ row column, (row, column) ∈ s.litBits →
      s.edges.refuses (s.x + column) (s.y + row) = false := by
  simp only [refused?, List.find?_eq_none, Prod.forall, Bool.not_eq_true]

/-- Of the lit bits that are refused, the one that is reported is the leftmost in the top row. -/
theorem refused?_first {s : Stamp} {row column : Nat} (h : s.refused? = some (row, column)) :
    ((row, column) ∈ s.litBits ∧ s.edges.refuses (s.x + column) (s.y + row) = true) ∧
      ∀ row' column', (row', column') ∈ s.litBits →
        s.edges.refuses (s.x + column') (s.y + row') = true →
          row < row' ∨ row = row' ∧ column ≤ column' := by
  obtain ⟨hrefuses, before, behind, hsplit, hbefore⟩ := List.find?_eq_some_iff_append.mp h
  have hsorted := s.pairwise_litBits
  rw [hsplit] at hsorted ⊢
  refine ⟨⟨by simp, hrefuses⟩, fun row' column' hmem hrefuses' => ?_⟩
  rcases List.mem_append.mp hmem with hmem | hmem
  · have hkept := hbefore _ hmem
    simp [hrefuses'] at hkept
  · rcases List.mem_cons.mp hmem with heq | hmem
    · cases heq
      exact .inr ⟨rfl, Nat.le_refl _⟩
    · have hlex := (List.pairwise_cons.mp (List.pairwise_append.mp hsorted).2.1).1 _ hmem
      rw [Prod.lex_def] at hlex
      exact hlex.imp_right fun h => ⟨h.1, Nat.le_of_lt h.2⟩

/-- A sprite that is no higher than the display does not meet itself. -/
theorem eq_of_landing? {s : Stamp} (hheight : s.rows.length ≤ 32) {row column row' column' : Nat}
    (h : (row, column) ∈ s.litBits) (h' : (row', column') ∈ s.litBits) {p : Point}
    (hp : s.landing? row column = some p) (hp' : s.landing? row' column' = some p) :
    row = row' ∧ column = column' := by
  obtain ⟨hrow, hcolumn, -⟩ := mem_litBits.mp h
  obtain ⟨hrow', hcolumn', -⟩ := mem_litBits.mp h'
  rw [landing?, landing?_eq_some_iff, covers] at hp hp'
  -- Eight columns and the rows are at most one turn around the display on either axis.
  cases hedges : s.edges <;> simp only [hedges, decide_eq_true_eq] at hp hp' <;> omega

theorem nodup_landed {s : Stamp} (hheight : s.rows.length ≤ 32) : s.landed.Nodup := by
  rw [landed, List.nodup_iff_pairwise_ne, List.pairwise_filterMap]
  refine s.pairwise_litBits.imp_of_mem fun {b b'} hb hb' hbefore p hp p' hp' heq => ?_
  obtain ⟨hrow, hcolumn⟩ := eq_of_landing? hheight hb hb' hp (heq ▸ hp')
  rcases Prod.lex_def.mp hbefore with hlt | ⟨-, hlt⟩
  · exact absurd hrow (Nat.ne_of_lt hlt)
  · exact absurd hcolumn (Nat.ne_of_lt hlt)

/-- The bit in this row and column is outside the display. -/
def Outside (s : Stamp) (row column : Nat) : Prop :=
  Frame.width ≤ s.x + column ∨ Frame.height ≤ s.y + row

/-- Under the policy that refuses cells, those outside the display are refused. -/
theorem refuses_iff_outside {s : Stamp} (hedges : s.edges = .fault) (row column : Nat) :
    s.edges.refuses (s.x + column) (s.y + row) = true ↔ s.Outside row column := by
  rw [hedges, EdgePolicy.refuses, decide_eq_true_eq]
  exact and_iff_right rfl

theorem inside_of_refused?_eq_none {s : Stamp} (hedges : s.edges = .fault)
    (hnone : s.refused? = none) {row column : Nat} (hmem : (row, column) ∈ s.litBits) :
    s.x + column < 64 ∧ s.y + row < 32 := by
  have hkept : ¬ s.Outside row column := by
    rw [← refuses_iff_outside hedges, refused?_eq_none_iff.mp hnone row column hmem]
    exact Bool.false_ne_true
  simp only [Outside, Frame.width, Frame.height] at hkept
  omega

/-- A stamp that stays inside the display lands alike under every policy. -/
theorem landed_inside {s : Stamp}
    (h : ∀ row column, (row, column) ∈ s.litBits → s.x + column < 64 ∧ s.y + row < 32)
    (edges : EdgePolicy) :
    let s' : Stamp := { s with edges }
    s'.refused? = none ∧ s'.landed = s.landed := by
  intro s'
  refine ⟨refused?_eq_none_iff.mpr fun row column hmem => ?_, ?_⟩
  · exact edges.refuses_inside (h row column hmem)
  · refine List.filterMap_congr fun b hmem => ?_
    have hin := h b.1 b.2 hmem
    show edges.landing? (s.x + b.2) (s.y + b.1) = s.edges.landing? (s.x + b.2) (s.y + b.1)
    rw [edges.landing?_inside hin, s.edges.landing?_inside hin]

end Stamp

/-! ## Drawing -/

theorem Instruction.decode?_of_draw {op : Opcode} (h : op.family = 0xD) :
    decode? op = some (.draw op.x op.y op.n) := by
  rw [decode?, h]
  rfl

namespace Machine

theorem execute_of_draw {op : Opcode} (h : op.family = 0xD) (m : Machine) :
    m.execute op = (Instruction.draw op.x op.y op.n).execute m := by
  rw [execute, Instruction.decode?_of_draw h]

theorem length_stamp_le (m : Machine) (x y : Register) (rows : Fin 16) :
    (m.stamp x y rows).rows.length ≤ 32 := by
  rw [stamp, List.length_map, List.length_range]
  omega

/-- A sprite whose rows memory has is refused at the first lit bit that is. -/
theorem fault_draw {m : Machine} {x y : Register} {rows : Fin 16}
    (hrange : m.index.toNat + rows.val ≤ Memory.size) :
    ((Instruction.draw x y rows).execute m).fault =
      (m.stamp x y rows).refused?.map (m.stamp x y rows).refusal := by
  rw [Instruction.execute, Outcome.fault_onSuccess, effect_draw, if_pos hrange, Stamp.points?_eq]
  cases (m.stamp x y rows).refused? <;> rfl

/-- A sprite is not looked at if memory has not all its rows. -/
theorem fault_draw_of_missing {m : Machine} {x y : Register} {rows : Fin 16}
    (hmissing : Memory.size < m.index.toNat + rows.val) :
    ((Instruction.draw x y rows).execute m).fault =
      some (.addressOutOfRange (max m.index.toNat Memory.size)) := by
  rw [Instruction.execute, Outcome.fault_onSuccess, effect_draw, if_neg (Nat.not_le.mpr hmissing)]
  rfl

/-- A draw that succeeds turns over the cells that lit bits have landed on. -/
theorem execute_draw_of_ok {m : Machine} {x y : Register} {rows : Fin 16}
    (hok : ((Instruction.draw x y rows).execute m).fault = none) :
    (Instruction.draw x y rows).execute m =
      .success { m.drawPoints (m.stamp x y rows).landed with pc := m.pc + 2 } := by
  obtain ⟨hrange, points, hpoints⟩ := fault_execute_draw.mp hok
  rw [execute_draw hrange hpoints]
  rw [Stamp.points?_eq] at hpoints
  split at hpoints
  · cases hpoints
  · rw [Except.ok.inj hpoints]

/-- A draw that succeeds under the policy that refuses cells does the same under every policy. -/
theorem execute_draw_of_edges {m : Machine} {x y : Register} {rows : Fin 16}
    (hedges : m.config.edges = .fault)
    (hok : ((Instruction.draw x y rows).execute m).fault = none) (edges : EdgePolicy) :
    let config := { m.config with edges }
    (Instruction.draw x y rows).execute { m with config } =
      .success { ((Instruction.draw x y rows).execute m).machine with config } := by
  intro config
  obtain ⟨hrange, -⟩ := fault_execute_draw.mp hok
  have hnone : (m.stamp x y rows).refused? = none := by
    rwa [fault_draw hrange, Option.map_eq_none_iff] at hok
  obtain ⟨hnone', hlanded⟩ := Stamp.landed_inside
    (fun _ _ => Stamp.inside_of_refused?_eq_none hedges hnone) edges
  have hok' : ((Instruction.draw x y rows).execute { m with config }).fault = none := by
    rw [fault_draw (m := { m with config }) hrange]
    exact Option.map_eq_none_iff.mpr hnone'
  rw [execute_draw_of_ok hok', execute_draw_of_ok hok]
  exact congrArg (fun points => Outcome.success
    { ({ m with config } : Machine).drawPoints points with pc := m.pc + 2 }) hlanded

/-- **What drawing a sprite does.** Memory has the rows of the sprite, so the draw succeeds unless
the policy is to refuse cells. If it succeeds, its lit bits have landed on points that are all
different, a cell is turned over just if a bit has landed on it, and the flag says whether one of
these cells was on before. The frame is to be shown, the program goes on at the next opcode, and
nothing else has changed. The place and the rows of the sprite are those that registers and memory
held before, the flag register included. -/
theorem draw_turns_over_landed (m : Machine) (op : Opcode) (hop : op.family = 0xD)
    (hrange : m.index.toNat + op.n.val ≤ Memory.size) :
    let s := m.stamp op.x op.y op.n
    let old := m.display.frame
    let now := (m.execute op).machine
    (m.config.edges ≠ .fault → (m.execute op).fault = none) ∧
      ((m.execute op).fault = none →
        (∀ row column row' column' p, (row, column) ∈ s.litBits → (row', column') ∈ s.litBits →
            s.landing? row column = some p → s.landing? row' column' = some p →
              row = row' ∧ column = column') ∧
          (∀ p, now.display.frame.lit p = if p ∈ s.landed then !old.lit p else old.lit p) ∧
          now.register flag = (if ∃ p ∈ s.landed, old.lit p = true then 1 else 0) ∧
          (∀ r ≠ flag, now.register r = m.register r) ∧ now.display.dirty = true ∧
          now = { m with registers := now.registers, display := now.display, pc := m.pc + 2 }) := by
  intro s old now
  have hexecute := execute_of_draw hop m
  refine ⟨fun hedges => ?_, fun hok => ?_⟩
  · rw [hexecute, fault_draw hrange, Stamp.refused?_eq_none_iff.mpr]
    · rfl
    · exact fun _ _ _ => EdgePolicy.refuses_eq_false_of_ne hedges _ _
  have hheight : s.rows.length ≤ 32 := m.length_stamp_le op.x op.y op.n
  have hnodup : s.landed.Nodup := Stamp.nodup_landed hheight
  have hnow : now = { m.drawPoints s.landed with pc := m.pc + 2 } := by
    rw [hexecute] at hok
    rw [show now = (m.execute op).machine from rfl, hexecute, execute_draw_of_ok hok]
    rfl
  refine ⟨fun _ _ _ _ _ h h' => Stamp.eq_of_landing? hheight h h', fun p => ?_, ?_, fun r hr => ?_,
    ?_, ?_⟩
  · have hlit : now.display.frame.lit p = (old.toggleAll s.landed).lit p := by rw [hnow]; rfl
    rw [hlit, Frame.lit_toggleAll, hnodup.count]
    split <;> simp
  · have hregister : now.register flag = if old.collides s.landed then 1 else 0 := by
      rw [hnow]
      exact (register_setRegister m flag flag _).trans (if_pos rfl)
    rw [hregister, Frame.collides_of_nodup hnodup]
    simp only [List.any_eq_true]
  · rw [hnow]
    exact (register_setRegister m flag r _).trans (if_neg (Ne.symm hr))
  · rw [hnow]
    rfl
  · rw [hnow]
    rfl

/-- A sprite of two by two whose place on both axes is held by the flag register. It lands in the
four corners of the display, one of which is on. -/
theorem draw_turns_over_landed_in_corners :
    let m : Machine :=
      { bare {} (.ofList []) with
        registers := (Vector.replicate 16 0).set 15 63
        index := 0x300
        memory := Memory.empty.put 0x300 [0xC0, 0xC0]
        display := ⟨Frame.blank.toggle ⟨0, 0⟩, false⟩ }
    let now := (m.execute ⟨0xDFF2⟩).machine
    ((⟨0xDFF2⟩ : Opcode).family = 0xD ∧ m.index.toNat + 2 ≤ Memory.size) ∧
      now.register flag = 1 ∧ now.display.frame.lit ⟨0, 0⟩ = false ∧
      now.display.frame.lit ⟨63, 31⟩ = true ∧ now.pc = 0x202 := by
  intro m now
  obtain ⟨hsucceeds, hdone⟩ := draw_turns_over_landed m ⟨0xDFF2⟩ (by decide) (by decide)
  obtain ⟨-, hlit, hflag, -, -, hnow⟩ := hdone (hsucceeds (by decide))
  refine ⟨⟨by decide, by decide⟩, ?_, ?_, ?_, congrArg Machine.pc hnow⟩
  · rw [hflag]
    decide +kernel
  · rw [hlit]
    decide +kernel
  · rw [hlit]
    decide +kernel

/-- **What refusing a sprite does.** Under the policy that refuses cells outside the display, a draw
whose rows memory has fails just if one of its lit bits is outside, wherever its unlit bits are; and
the fault names the place of the first such bit, in the top row and leftmost in it. A draw whose
rows memory has not fails for that, wherever its bits are. A draw that succeeds does what it does
under any other policy. -/
theorem sprite_refused_at_first_outside (m : Machine) (op : Opcode) (hop : op.family = 0xD)
    (hedges : m.config.edges = .fault) :
    let s := m.stamp op.x op.y op.n
    (m.index.toNat + op.n.val ≤ Memory.size →
        ((m.execute op).fault ≠ none ↔
          ∃ row column, (row, column) ∈ s.litBits ∧ s.Outside row column) ∧
        ∀ f, (m.execute op).fault = some f →
          ∃ row column, ((row, column) ∈ s.litBits ∧ s.Outside row column) ∧
            f = .spriteOutOfBounds (s.x + column) (s.y + row) ∧
            ∀ row' column', (row', column') ∈ s.litBits → s.Outside row' column' →
              row < row' ∨ row = row' ∧ column ≤ column') ∧
      (1 ≤ op.n.val → Memory.size < m.index.toNat + op.n.val →
        (m.execute op).fault = some (.addressOutOfRange (max m.index.toNat Memory.size))) ∧
      ((m.execute op).fault = none → ∀ edges : EdgePolicy,
        let config := { m.config with edges }
        Machine.execute { m with config } op =
          .success { (m.execute op).machine with config }) := by
  intro s
  have hexecute := execute_of_draw hop
  have hrefuses := Stamp.refuses_iff_outside (s := s) hedges
  refine ⟨fun hrange => ?_, fun _ hmissing => ?_, fun hok edges => ?_⟩
  · rw [hexecute, fault_draw hrange]
    refine ⟨?_, fun f hf => ?_⟩
    · rw [Ne, Option.map_eq_none_iff, Stamp.refused?_eq_none_iff]
      simp only [not_forall, exists_prop, Bool.not_eq_false]
      exact exists_congr fun row => exists_congr fun column =>
        and_congr_right fun _ => hrefuses row column
    · obtain ⟨⟨row, column⟩, hfirst, rfl⟩ := Option.map_eq_some_iff.mp hf
      obtain ⟨⟨hmem, hout⟩, hleast⟩ := Stamp.refused?_first hfirst
      refine ⟨row, column, ⟨hmem, (hrefuses _ _).mp hout⟩, rfl, fun row' column' hmem' hout' => ?_⟩
      exact hleast row' column' hmem' ((hrefuses _ _).mpr hout')
  · rw [hexecute]
    exact fault_draw_of_missing hmissing
  · intro config
    rw [hexecute] at hok
    rw [hexecute, hexecute m]
    exact execute_draw_of_edges hedges hok edges

/-- Two rows at the lower edge of the display, the lower one outside it. The first row is lit on the
left and unlit beyond the right edge, so it is a bit of the second row that is refused, though not
its leftmost, which is unlit. -/
theorem sprite_refused_at_first_outside_in_second_row :
    let m : Machine :=
      { ((bare { edges := .fault } (.ofList [])).setRegister 0 60).setRegister 1 31 with
        index := 0x300
        memory := Memory.empty.put 0x300 [0xF0, 0x5F] }
    (((⟨0xD012⟩ : Opcode).family = 0xD ∧ m.config.edges = .fault) ∧
        m.index.toNat + 2 ≤ Memory.size) ∧
      (m.execute ⟨0xD012⟩).fault = some (.spriteOutOfBounds 61 32) := by
  intro m
  have hbits : (m.stamp 0 1 2).litBits =
      [(0, 0), (0, 1), (0, 2), (0, 3), (1, 1), (1, 3), (1, 4), (1, 5), (1, 6), (1, 7)] := by
    decide +kernel
  have hout : (1, 1) ∈ (m.stamp 0 1 2).litBits ∧ (m.stamp 0 1 2).Outside 1 1 :=
    ⟨by rw [hbits]; decide, .inr (by decide)⟩
  obtain ⟨hat, -, -⟩ := sprite_refused_at_first_outside m ⟨0xD012⟩ (by decide) rfl
  obtain ⟨hfails, hnamed⟩ := hat (by decide)
  obtain ⟨f, hf⟩ := Option.ne_none_iff_exists'.mp (hfails.mpr ⟨1, 1, hout⟩)
  obtain ⟨row, column, ⟨hmem, hrowcolumn⟩, rfl, hleast⟩ := hnamed f hf
  have hbefore := hleast 1 1 hout.1 hout.2
  obtain ⟨rfl, rfl⟩ : row = 1 ∧ column = 1 := by
    change (row, column) ∈ (m.stamp 0 1 2).litBits at hmem
    change 64 ≤ 60 + column ∨ 32 ≤ 31 + row at hrowcolumn
    simp only [hbits, List.mem_cons, Prod.mk.injEq, List.not_mem_nil, or_false] at hmem
    omega
  exact ⟨⟨⟨by decide, rfl⟩, by decide⟩, hf⟩

end Machine
end ChipEight
