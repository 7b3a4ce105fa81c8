import ChipEight.Proofs.Drawing
import Mathlib.Algebra.GroupWithZero.Nat
import Mathlib.Data.List.ProdSigma

/-!
The parity of a cell. A sprite that a cycle has drawn is a `Stamp`: its rows, where its corner was,
and the policy for the display's edges. `Stamp.hits` counts the lit bits of a stamp that land on a
point. A cell is on if the stamps since the display was last cleared have hit it an odd number of
times (`Machine.lit_after`), so their order does not matter, and a sprite that is drawn twice is
gone.
-/
namespace ChipEight

/-- A sprite that is drawn with its top left corner at a place. -/
structure Stamp where
  edges : EdgePolicy
  x : Nat
  y : Nat
  rows : List UInt8
  deriving DecidableEq

namespace Stamp

/-- Whether the bit in this row and column is lit; the highest bit of a row is its leftmost. -/
def bit (s : Stamp) (row column : Nat) : Bool :=
  (s.rows[row]?.getD 0).toNat.testBit (7 - column)

/-- Whether the bit in this row and column is over a point. -/
def covers (s : Stamp) (row column : Nat) (p : Point) : Bool :=
  match s.edges with
  | .wrap => (s.x + column) % 64 = p.x.val ∧ (s.y + row) % 32 = p.y.val
  | .clip | .fault => s.x + column = p.x.val ∧ s.y + row = p.y.val

/-- The number of lit bits that are over a point. -/
def hits (s : Stamp) (p : Point) : Nat :=
  (List.range s.rows.length ×ˢ List.range 8).countP fun (row, column) =>
    s.bit row column && s.covers row column p

/-- Whether a stamp turns the cell at a point over. -/
def flips (s : Stamp) (p : Point) : Bool :=
  decide (s.hits p % 2 = 1)

/-- The points the lit bits land on, one after the other, unless one of them is refused. -/
def points? (s : Stamp) : Except Fault (List Point) :=
  s.edges.placeAll s.x s.y (Sprite.litCells s.rows)

/-! ## Counting hits -/

/-- A lit bit lands where it is. -/
theorem landing?_eq_some_iff {s : Stamp} {row column : Nat} {p : Point} :
    s.edges.landing? (s.x + column) (s.y + row) = some p ↔ s.covers row column p = true := by
  obtain ⟨px, py⟩ := p
  rw [covers]
  cases hedges : s.edges with
  | wrap => simp [EdgePolicy.landing?_wrap, Fin.ext_iff]
  | clip | fault => simp [EdgePolicy.landing?, Frame.point?_eq_some_iff]

/-- Of the bits that are put on the display, those count for a point that are over it. -/
theorem count_placeAll {s : Stamp} {cells : List (Nat × Nat)} {points : List Point}
    (h : s.edges.placeAll s.x s.y cells = .ok points) (p : Point) :
    points.count p = cells.countP fun (column, row) => s.covers row column p := by
  obtain ⟨-, rfl⟩ := EdgePolicy.of_placeAll_ok h
  rw [List.count_filterMap]
  refine List.countP_congr fun cell _ => ?_
  rw [beq_iff_eq, landing?_eq_some_iff]

theorem countP_product {α β : Type} (as : List α) (bs : List β) (q : α × β → Bool) :
    (as ×ˢ bs).countP q = (as.map fun a => bs.countP fun b => q (a, b)).sum := by
  show (as.flatMap _).countP q = _
  rw [List.countP_flatMap]
  simp [Function.comp_def, List.countP_map]

theorem countP_litColumns (bits : UInt8) (q : Nat → Bool) :
    (Sprite.litColumns bits).countP q =
      (List.range 8).countP fun column => bits.toNat.testBit (7 - column) && q column := by
  rw [Sprite.litColumns, List.countP_filter]
  simp only [Bool.and_comm]

/-- The lit cells of a sprite are its lit bits, row by row. -/
theorem countP_litCells (rows : List UInt8) (q : Nat × Nat → Bool) :
    (Sprite.litCells rows).countP q =
      (List.range rows.length ×ˢ List.range 8).countP fun (row, column) =>
        (rows[row]?.getD 0).toNat.testBit (7 - column) && q (column, row) := by
  rw [countP_product, Sprite.litCells, List.countP_flatMap]
  refine congrArg List.sum (List.ext_getElem (by simp) fun row _ h => ?_)
  have hrow : row < rows.length := by simpa using h
  simp [countP_litColumns, hrow]

/-- A point is hit as often as it is among the points of the stamp. -/
theorem count_points? {s : Stamp} {points : List Point} (h : s.points? = .ok points) (p : Point) :
    points.count p = s.hits p := by
  rw [count_placeAll h, countP_litCells]
  rfl

end Stamp

/-! ## Cycles -/

namespace Machine

/-- The sprite the machine would draw at the place that two registers hold. -/
def stamp (m : Machine) (x y : Register) (rows : Fin 16) : Stamp where
  edges := m.config.edges
  x := (m.register x).toNat
  y := (m.register y).toNat
  rows := (List.range rows.val).map fun k => m.memory.byte (m.index.toNat + k)

theorem effect_draw (m : Machine) (x y : Register) (rows : Fin 16) :
    (Instruction.draw x y rows).effect m =
      if m.index.toNat + rows.val ≤ Memory.size then
        .check m (m.stamp x y rows).points? fun points => .success (m.drawPoints points)
      else .failure m (.addressOutOfRange (max m.index.toNat Memory.size)) := by
  rw [Instruction.effect, Memory.read_eq]
  split <;> rfl

/-- A sprite is drawn if memory has all its rows and none of its lit bits is refused. -/
theorem fault_execute_draw {m : Machine} {x y : Register} {rows : Fin 16} :
    ((Instruction.draw x y rows).execute m).fault = none ↔
      m.index.toNat + rows.val ≤ Memory.size ∧ ∃ points, (m.stamp x y rows).points? = .ok points := by
  rw [Instruction.execute, Outcome.fault_onSuccess, effect_draw]
  split
  · rename_i hrange
    cases (m.stamp x y rows).points? <;> simp [hrange]
  · rename_i hrange
    simp [hrange]

theorem execute_draw {m : Machine} {x y : Register} {rows : Fin 16} {points : List Point}
    (hrange : m.index.toNat + rows.val ≤ Memory.size)
    (hpoints : (m.stamp x y rows).points? = .ok points) :
    (Instruction.draw x y rows).execute m =
      .success { m.drawPoints points with pc := m.pc + 2 } := by
  have heffect : (Instruction.draw x y rows).effect m = .success (m.drawPoints points) := by
    rw [effect_draw, if_pos hrange, hpoints, Outcome.check_ok]
  exact Instruction.execute_of_success heffect

theorem fault_step_draw {m : Machine} {x y : Register} {rows : Fin 16}
    (hdue : m.due? = some (.draw x y rows)) :
    m.step.fault = none ↔
      m.index.toNat + rows.val ≤ Memory.size ∧ ∃ points, (m.stamp x y rows).points? = .ok points := by
  rw [step_of_due? hdue, fault_execute_draw]

theorem step_draw {m : Machine} {x y : Register} {rows : Fin 16} {points : List Point}
    (hdue : m.due? = some (.draw x y rows)) (hrange : m.index.toNat + rows.val ≤ Memory.size)
    (hpoints : (m.stamp x y rows).points? = .ok points) :
    m.step = .success { m.drawPoints points with pc := m.pc + 2 } := by
  rw [step_of_due? hdue, execute_draw hrange hpoints]

theorem lit_step_draw {m : Machine} {x y : Register} {rows : Fin 16}
    (hdue : m.due? = some (.draw x y rows)) (hok : m.step.fault = none) (p : Point) :
    m.step.machine.display.frame.lit p =
      (m.display.frame.lit p ^^ (m.stamp x y rows).flips p) := by
  obtain ⟨hrange, points, hpoints⟩ := (fault_step_draw hdue).mp hok
  rw [step_draw hdue hrange hpoints, Stamp.flips, ← Stamp.count_points? hpoints]
  exact Frame.lit_toggleAll _ points p

end Machine

/-! ## Histories -/

namespace Moment

/-- The sprite that a moment draws, if it is a cycle that does and succeeds. -/
def stamp? : Moment → Option Stamp
  | .cycle start outcome _ =>
      match start.due?, outcome.fault with
      | some (.draw x y rows), none => some (start.stamp x y rows)
      | _, _ => none
  | .answer .. => none

/-- Whether a moment is a cycle that clears the display. -/
def clears (x : Moment) : Bool :=
  x.executed?.any (· = .clear) && x.fault?.isNone

/-- The sprites drawn since the display was last cleared. -/
def stamps (past : List Moment) : List Stamp :=
  (past.rtakeWhile fun x => !x.clears).filterMap stamp?

theorem stamp?_of_not_draws {x : Moment} (h : x.draws = false) : x.stamp? = none := by
  cases x with
  | answer => rfl
  | cycle start outcome log =>
    rw [stamp?]
    split
    · rename_i hdue hfault
      simp [draws, executed?, fault?, hdue, hfault, Instruction.draws] at h
    · rfl

theorem clears_of_not_draws {x : Moment} (h : x.draws = false) : x.clears = false := by
  rw [draws, Bool.and_eq_false_iff] at h
  rw [clears, Bool.and_eq_false_iff]
  refine h.imp_left fun hdraws => ?_
  cases hi : x.executed? with
  | none => rfl
  | some i => cases i <;> simp_all [Instruction.draws]

theorem stamps_concat_of_clears {x : Moment} (h : x.clears = true) (past : List Moment) :
    stamps (past ++ [x]) = [] := by
  rw [stamps, List.rtakeWhile_concat_neg _ _ _ (by simp [h]), List.filterMap_nil]

theorem stamps_concat_of_not_clears {x : Moment} (h : x.clears = false) (past : List Moment) :
    stamps (past ++ [x]) = stamps past ++ x.stamp?.toList := by
  rw [stamps, List.rtakeWhile_concat_pos _ _ _ (by simp [h]), List.filterMap_append, stamps]
  cases hstamp : x.stamp? <;> simp [hstamp]

/-- What a moment makes of the cell at a point. -/
def cell (p : Point) (on : Bool) (x : Moment) : Bool :=
  if x.clears then false else on ^^ x.stamp?.any (·.flips p)

theorem odd_add (a b : Nat) :
    decide ((a + b) % 2 = 1) = (decide (a % 2 = 1) ^^ decide (b % 2 = 1)) := by
  rcases Nat.mod_two_eq_zero_or_one a with ha | ha <;>
    rcases Nat.mod_two_eq_zero_or_one b with hb | hb <;> simp [Nat.add_mod, ha, hb]

/-- A cell is left on by stamps that hit it an odd number of times. -/
theorem foldl_cell (p : Point) (past : List Moment) :
    past.foldl (cell p) false = decide (((stamps past).map (·.hits p)).sum % 2 = 1) := by
  induction past using List.reverseRecOn with
  | nil => rfl
  | append_singleton past x ih =>
    rw [List.foldl_append, List.foldl_cons, List.foldl_nil, ih, cell]
    cases hclears : x.clears with
    | true =>
      rw [stamps_concat_of_clears hclears]
      rfl
    | false =>
      rw [stamps_concat_of_not_clears hclears, List.map_append, List.sum_append, odd_add,
        if_neg Bool.false_ne_true]
      cases x.stamp? <;> simp [Stamp.flips]

end Moment

namespace Machine

/-- What a cycle that succeeds has done to the cells. -/
theorem tells_lit (p : Point) : Tells (fun m => m.display.frame.lit p) (Moment.cell p) where
  cycle m := by
    dsimp only [Moment.cell]
    cases hdraws : m.nextCycle.draws with
    | false =>
      rw [frame_step_of_not_draws hdraws, Moment.clears_of_not_draws hdraws,
        Moment.stamp?_of_not_draws hdraws]
      exact (Bool.xor_false _).symm
    | true =>
      obtain ⟨i, hdue, hi, hok⟩ := exists_of_draws hdraws
      cases i with
      | clear =>
        have hclears : m.nextCycle.clears = true := by
          simp [nextCycle, Moment.clears, Moment.executed?, Moment.fault?, hdue, hok]
        rw [hclears, if_pos rfl, step_of_due? hdue]
        exact Frame.lit_blank p
      | draw x y rows =>
        have hclears : m.nextCycle.clears = false := by
          simp [nextCycle, Moment.clears, Moment.executed?, hdue]
        have hstamp : m.nextCycle.stamp? = some (m.stamp x y rows) := by
          simp [nextCycle, Moment.stamp?, hdue, hok]
        rw [hclears, hstamp, lit_step_draw hdue hok]
        rfl
      | _ => cases hi
  served m request h := by
    show (m.serve request).machine.display.frame.lit p = (m.display.frame.lit p ^^ false)
    rw [frame_serve h, Bool.xor_false]
  summed on request h answer := Bool.xor_false on

/-! ## The same sprite again -/

/-- A machine that is about to draw a sprite where another machine has all that the sprite depends
on, too. -/
structure Redraws (m later : Machine) (x y : Register) (rows : Fin 16) : Prop where
  due : later.due? = some (.draw x y rows)
  memory : later.memory = m.memory
  index : later.index = m.index
  left : later.register x = m.register x
  top : later.register y = m.register y

/-- Drawing changes no register but the one for the flag. -/
theorem register_step_draw {m : Machine} {x y : Register} {rows : Fin 16}
    (hdue : m.due? = some (.draw x y rows)) (hok : m.step.fault = none) {r : Register}
    (hr : r ≠ flag) : m.step.machine.register r = m.register r := by
  obtain ⟨hrange, points, hpoints⟩ := (fault_step_draw hdue).mp hok
  rw [step_draw hdue hrange hpoints]
  exact (register_setRegister m flag r _).trans (if_neg (Ne.symm hr))

theorem stamp_eq_of_redraws {m later : Machine} {x y : Register} {rows : Fin 16}
    (hdue : m.due? = some (.draw x y rows)) (hok : m.step.fault = none) (hx : x ≠ flag)
    (hy : y ≠ flag) (h : m.step.machine.Redraws later x y rows)
    (hconfig : later.config = m.config) :
    later.index = m.index ∧ later.stamp x y rows = m.stamp x y rows := by
  obtain ⟨hrange, points, hpoints⟩ := (fault_step_draw hdue).mp hok
  have hstep := step_draw hdue hrange hpoints
  have hmemory : m.step.machine.memory = m.memory := by rw [hstep]; rfl
  have hindex : m.step.machine.index = m.index := by rw [hstep]; rfl
  refine ⟨h.index.trans hindex, ?_⟩
  simp only [stamp, hconfig, h.memory, h.index, h.left, h.top, hmemory, hindex,
    register_step_draw hdue hok hx, register_step_draw hdue hok hy]

/-- Drawing a sprite once more where it was drawn takes it away again. -/
theorem frame_step_of_redraws {m later : Machine} {x y : Register} {rows : Fin 16}
    (hdue : m.due? = some (.draw x y rows)) (hok : m.step.fault = none) (hx : x ≠ flag)
    (hy : y ≠ flag) (h : m.step.machine.Redraws later x y rows)
    (hconfig : later.config = m.config)
    (hframe : later.display.frame = m.step.machine.display.frame) :
    later.step.fault = none ∧ later.step.machine.display.frame = m.display.frame := by
  obtain ⟨hindex, hstamp⟩ := stamp_eq_of_redraws hdue hok hx hy h hconfig
  have hagain : later.step.fault = none := by
    rw [fault_step_draw h.due, hindex, hstamp]
    exact (fault_step_draw hdue).mp hok
  refine ⟨hagain, Frame.ext_lit fun p => ?_⟩
  rw [lit_step_draw h.due hagain, hstamp, hframe, lit_step_draw hdue hok, Bool.xor_assoc,
    Bool.xor_self, Bool.xor_false]

theorem lit_after (config : Config) (random : RandomBytes) (requests : List Request) (p : Point) :
    ((create config random).after requests).display.frame.lit p =
      decide (((Moment.stamps ((create config random).history requests)).map
        (·.hits p)).sum % 2 = 1) := by
  rw [(tells_lit p).after, ← Moment.foldl_cell]
  exact congrArg (List.foldl (Moment.cell p) · _) (Frame.lit_blank p)

/-- **Each cell is the parity of the bits that have hit it.** In every state a machine comes to, a
cell is on if and only if the sprites drawn since the display was last cleared have put an odd
number of lit bits on it. So a sprite that is drawn twice, with nothing else drawn and nothing it
depends on changed in between, is gone again, and for the frame it does not matter in which order
the same sprites are drawn. -/
theorem parity_of_stamps (config : Config) (random : RandomBytes) (requests : List Request) :
    let past := (create config random).history requests
    let frame := ((create config random).after requests).display.frame
    (∀ p, frame.lit p = decide (((Moment.stamps past).map (·.hits p)).sum % 2 = 1)) ∧
      (∀ (m : Machine) (x y : Register) (rows : Fin 16) (between : List Request),
        let later := m.step.machine.after between
        m.due? = some (.draw x y rows) → m.step.fault = none → x ≠ flag → y ≠ flag →
        (∀ moment ∈ m.step.machine.history between, moment.draws = false) →
        m.step.machine.Redraws later x y rows →
          later.step.fault = none ∧ later.step.machine.display.frame = m.display.frame) ∧
      ∀ (config' : Config) (random' : RandomBytes) (requests' : List Request),
        (Moment.stamps past).Perm (Moment.stamps ((create config' random').history requests')) →
          frame = ((create config' random').after requests').display.frame := by
  intro past frame
  refine ⟨lit_after config random requests, ?_, ?_⟩
  · intro m x y rows between later hdue hok hx hy hbetween hredraws
    have hconfig : later.config = m.config :=
      (config_after _ between).trans (act_cycle m ▸ m.config_act .cycle)
    exact frame_step_of_redraws hdue hok hx hy hredraws hconfig (frame_after_of_not_draws hbetween)
  · intro config' random' requests' hperm
    refine Frame.ext_lit fun p => ?_
    rw [lit_after, lit_after, (hperm.map _).sum_nat]

/-- A row that is drawn twice is gone again, though the frame is shown in between and the timers
tick; and a row and a sprite of two make the same frame in either order. -/
theorem parity_of_stamps_two_sprites :
    let start := create { preloadFont := false } (.ofList [])
    let m := start.after [.load [0xA2, 0x00, 0xD0, 0x11, 0xD0, 0x11], .step 1]
    let between := [Request.acknowledge, .tick 1]
    let later := m.step.machine.after between
    let requests := [.load [0xA2, 0x00, 0xD0, 0x11, 0xD0, 0x12], .step 3]
    let requests' := [.load [0xA2, 0x00, 0xD0, 0x12, 0xD0, 0x11], .step 3]
    (m.due? = some (.draw 0 1 1) ∧ m.step.fault = none ∧ m.step.machine.Redraws later 0 1 1 ∧
        (∀ moment ∈ m.step.machine.history between, moment.draws = false) ∧
        (Moment.stamps (start.history requests)).Perm (Moment.stamps (start.history requests'))) ∧
      later.step.machine.display.frame = m.display.frame ∧
      (start.after requests).display.frame = (start.after requests').display.frame := by
  intro start m between later requests requests'
  have hdue : m.due? = some (.draw 0 1 1) := by decide +kernel
  have hok : m.step.fault = none := by decide +kernel
  have hstill : ∀ n : Machine, (n.after between).memory = n.memory ∧
      (n.after between).index = n.index ∧ ∀ r, (n.after between).register r = n.register r :=
    fun n => ⟨rfl, rfl, fun r => rfl⟩
  have hredraws : m.step.machine.Redraws later 0 1 1 := by
    obtain ⟨hmemory, hindex, hregister⟩ := hstill m.step.machine
    exact ⟨by decide +kernel, hmemory, hindex, hregister 0, hregister 1⟩
  have hbetween : ∀ moment ∈ m.step.machine.history between, moment.draws = false := by
    simp [between, history, cyclesOf, Moment.draws, Moment.executed?]
  have hstamps : Moment.stamps (start.history requests) =
      [⟨.wrap, 0, 0, [0xA2]⟩, ⟨.wrap, 0, 0, [0xA2, 0x00]⟩] := by decide +kernel
  have hstamps' : Moment.stamps (start.history requests') =
      [⟨.wrap, 0, 0, [0xA2, 0x00]⟩, ⟨.wrap, 0, 0, [0xA2]⟩] := by decide +kernel
  have hperm : (Moment.stamps (start.history requests)).Perm
      (Moment.stamps (start.history requests')) := by
    rw [hstamps, hstamps']
    exact .swap ..
  obtain ⟨-, hagain, horder⟩ := parity_of_stamps { preloadFont := false } (.ofList []) requests
  obtain ⟨-, hgone⟩ := hagain m 0 1 1 between hdue hok (by decide) (by decide) hbetween hredraws
  have hsame : (start.after requests).display.frame = (start.after requests').display.frame := by
    rw [show start = create { preloadFont := false } (.ofList []) from rfl,
      horder { preloadFont := false } (.ofList []) requests' hperm]
  exact ⟨⟨hdue, hok, hredraws, hbetween, hperm⟩, hgone, hsame⟩

end Machine
end ChipEight
