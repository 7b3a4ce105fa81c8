import ChipEight.Proofs.Footprint
import ChipEight.Proofs.Raw.Machine

/-!
A machine in bare words, part by part. `Raw.ofMachine` writes a machine down as a raw one. Each use
of a raw machine's registers, memory or display that a machine comes to is shown not to trap there,
and to give what the machine gives; the numbers that keep it from trapping are the sizes in the
machine's types.
-/
namespace ChipEight

namespace Raw

/-- A frame's cells as bytes. -/
def ofCells (f : Frame) : Vector (Vector UInt8 64) 32 :=
  f.rows.map fun row => row.map Bool.toUInt8

/-- A machine written down in bare words. -/
def ofMachine (m : Machine) : Raw where
  config := m.config
  v := m.registers
  i := m.index
  pc := m.pc
  stack := m.calls.slots
  sp := UInt8.ofNat m.calls.depth
  delay := m.delay.value
  sound := m.sound.value
  keys := m.keys
  waiting := m.awaiting.map Fin.val
  bytes := m.memory.bytes
  cells := ofCells m.display.frame
  dirty := m.display.dirty
  random := m.random

/-- An outcome written down in bare words, with what an operation answers if it met no fault. -/
def ofOutcome {α : Type} (o : Outcome) (a : α) : Raw × Except Fault α :=
  (ofMachine o.machine, match o.fault with
    | none => .ok a
    | some f => .error f)

section

variable {α β : Type} (m : Machine)

@[simp] theorem ofOutcome_success (a : α) : ofOutcome (.success m) a = (ofMachine m, .ok a) := rfl

@[simp] theorem ofOutcome_failure (f : Fault) (a : α) :
    ofOutcome (.failure m f) a = (ofMachine m, .error f) := rfl

/-! ## Registers -/

theorem v_get? (x : Register) : (ofMachine m).v[x.val]? = some (m.register x) := by
  rw [Vector.getElem?_eq_getElem x.isLt]
  rfl

theorem setV?_eq (x : Register) (value : UInt8) :
    (ofMachine m).setV? x.val value = some (ofMachine (m.setRegister x value)) := by
  rw [setV?, put?_eq x.isLt]
  rfl

theorem setV?_flag (on : Bool) :
    (ofMachine m).setV? flag on.toUInt8 = some (ofMachine (m.setFlag on)) :=
  setV?_eq m Machine.flag _

/-! ## Checks -/

theorem attempt?_eq {found : Except Fault α} {go : α → Outcome} {b : β}
    {go? : α → Option (Raw × Except Fault β)}
    (h : ∀ a, found = .ok a → go? a = some (ofOutcome (go a) b)) :
    (ofMachine m).attempt? found go? = some (ofOutcome (.check m found go) b) := by
  cases found with
  | ok a => exact h a rfl
  | error f => rfl

/-! ## Memory -/

theorem range?_eq {address : UInt16} {length : Nat} (h : Memory.HasEnd address length) :
    range? address length = some
      (if address.toNat + length ≤ Memory.size then .ok (address.toNat, address.toNat + length)
      else .error (.addressOutOfRange (max address.toNat Memory.size))) := by
  have hlimit : address.toNat + length < sizeLimit := h
  simp only [range?, within?_eq hlimit]
  by_cases hle : address.toNat + length ≤ Memory.size
  · simp [hle, Nat.not_lt.mpr hle]
  · simp [hle, Nat.not_le.mp hle]

theorem bytes_range {memory : Memory} {start length : Nat} (h : start + length ≤ Memory.size) :
    (memory.bytes.toList.drop start).take length =
      (List.range length).map fun k => memory.byte (start + k) := by
  have hsize : memory.bytes.toList.length = Memory.size := memory.bytes.length_toList
  apply List.ext_getElem (by simp [hsize]; omega)
  intro k hk hk'
  have hlt : start + k < 4096 := by
    simp only [List.length_map, List.length_range] at hk'
    exact Nat.lt_of_lt_of_le (Nat.add_lt_add_left hk' start) h
  simp [Memory.byte, Vector.getElem?_eq_getElem hlt]

theorem read?_eq {address : UInt16} {length : Nat} (h : Memory.HasEnd address length) :
    (ofMachine m).read? address length = some (m.memory.read address length h) := by
  rw [read?, range?_eq h, Memory.read_eq]
  by_cases hle : address.toNat + length ≤ Memory.size
  · have hslice := slice?_eq m.memory.bytes hle
    rw [bytes_range hle] at hslice
    simp [hle, ofMachine, hslice]
  · simp [hle]

theorem splice?_bytes (memory : Memory) {start : Nat} {data : List UInt8}
    (h : start + data.length ≤ Memory.size) :
    splice? memory.bytes start (start + data.length) data = some (memory.put start data).bytes := by
  obtain ⟨ys, hys, hget⟩ := splice?_spec memory.bytes h rfl
  have hmemory : Memory.mk ys = memory.put start data := by
    apply Memory.ext_byte
    intro a
    rw [Memory.byte_put, Memory.byte, hget]
    by_cases hin : start ≤ a ∧ a < start + data.length
    · rw [if_pos hin, if_pos ⟨hin.1, hin.2, Nat.lt_of_lt_of_le hin.2 h⟩]
    · rw [if_neg hin, if_neg fun hall => hin ⟨hall.1, hall.2.1⟩]
      rfl
  rw [hys, ← hmemory]

theorem write?_eq (address : UInt16) (data : List UInt8)
    (h : Memory.HasEnd address data.length) :
    (ofMachine m).write? address data =
      some (ofOutcome (m.store (m.memory.write address data h)) ()) := by
  rw [write?, range?_eq h, Memory.write_eq]
  by_cases hle : address.toNat + data.length ≤ Memory.size
  · have hsplice := splice?_bytes m.memory hle
    simp [hle, ofMachine, attempt?, hsplice, Machine.store, Machine.withMemory]
  · simp [hle, attempt?, Machine.store]

theorem fetch?_eq (address : UInt16) :
    (ofMachine m).fetch? address = some (m.memory.fetch address) := by
  have hend : Memory.HasEnd address 2 := Memory.hasEnd_of_le address (by decide)
  rw [fetch?, read?_eq m hend, Memory.read_eq, Memory.fetch_eq]
  by_cases hle : address.toNat + 2 ≤ Memory.size
  · simp only [if_pos hle]
    rfl
  · simp [hle]

theorem load?_eq (image : List UInt8) :
    (ofMachine m).load? image = some (ofOutcome (m.load image) ()) := by
  rw [load?, Machine.load, Memory.load]
  by_cases hle : image.length ≤ imageCapacity
  · have hsize : Memory.programStart + image.length ≤ Memory.size := by
      simp only [Memory.programStart, Memory.size, imageCapacity] at hle ⊢
      omega
    have hlimit : Memory.programStart + image.length < sizeLimit :=
      lt_sizeLimit (Nat.le_trans hsize (by decide))
    have hsplice := splice?_bytes m.memory hsize
    simp [hle, Nat.not_lt.mpr hle, within?_eq hlimit, ofMachine, hsplice, Machine.store,
      Machine.withMemory]
  · simp [hle, Nat.not_le.mp hle, Machine.store]

theorem loadFrom?_eq (stream : List Chunk) :
    (ofMachine m).loadFrom? stream = some (ofOutcome (m.loadFrom stream) ()) := by
  rw [loadFrom?, Machine.loadFrom, Memory.loadFrom]
  cases Chunk.gather stream with
  | error f => rfl
  | ok image => exact load?_eq m image

theorem loadFont?_eq :
    (ofMachine m).loadFont? = some (ofMachine (m.withMemory m.memory.loadFont)) := by
  have hsize : Font.base + Font.sheet.length ≤ Memory.size := by
    rw [Font.length_sheet]
    decide
  have hlimit : Font.base + Font.sheet.length < sizeLimit :=
    lt_sizeLimit (Nat.le_trans hsize (by decide))
  have hsplice := splice?_bytes m.memory hsize
  simp [loadFont?, within?_eq hlimit, ofMachine, hsplice, Machine.withMemory, Memory.loadFont]

theorem writeByte_eq (address : UInt16) (value : UInt8) :
    (ofMachine m).writeByte address value =
      ofMachine (m.store (m.memory.writeByte address value)).machine := by
  by_cases h : address.toNat < Memory.size
  · have hlt : address.toNat < 4096 := h
    have hput := setIfInBounds_eq_set m.memory.bytes hlt value
    simp [writeByte, ofMachine, put?_eq hlt, Memory.writeByte, h, Machine.store,
      Machine.withMemory, Memory.put, hput]
  · have hge : ¬address.toNat < 4096 := h
    simp [writeByte, put?, hge, Memory.writeByte, h, Machine.store]

/-! ## Cells -/

theorem ofCells_blank : ofCells .blank = blankCells := by
  simp only [ofCells, Frame.blank, Vector.map_replicate]
  rfl

theorem get_ofCells (f : Frame) (y : Fin 32) :
    (ofCells f).get y = (f.rows.get y).map Bool.toUInt8 := by
  show (ofCells f)[y.val] = _
  rw [ofCells, Vector.getElem_map]
  rfl

theorem ofCells_toggle (f : Frame) (p : Point) :
    ofCells (f.toggle p) = (ofCells f).set p.y.val
      (((ofCells f).get p.y).set p.x.val ((f.lit p).toUInt8 ^^^ 1) p.x.isLt) p.y.isLt := by
  have hcell : (!f.lit p).toUInt8 = (f.lit p).toUInt8 ^^^ 1 := by
    cases f.lit p <;> rfl
  rw [get_ofCells, ← hcell]
  simp only [ofCells, Frame.toggle, Vector.map_set]
  rfl

theorem row?_eq (f : Frame) (y : Fin 32) : (ofCells f)[y.val]? = some ((ofCells f).get y) :=
  Vector.getElem?_eq_getElem y.isLt

theorem cell?_ofCells (f : Frame) (p : Point) :
    ((ofCells f).get p.y)[p.x.val]? = some (f.lit p).toUInt8 := by
  rw [get_ofCells, Vector.getElem?_map, Vector.getElem?_eq_getElem p.x.isLt]
  rfl

theorem cell?_eq (p : Point) :
    (ofMachine m).cell? p.x.val p.y.val = some (m.display.frame.lit p).toUInt8 := by
  have hrow := row?_eq m.display.frame p.y
  simp only [cell?, ofMachine, hrow, Option.bind_eq_bind, Option.bind_some]
  exact cell?_ofCells m.display.frame p

theorem toggle?_eq (p : Point) :
    (ofMachine m).toggle? p.x.val p.y.val =
      some (ofMachine { m with display := m.display.toggle p }, m.display.frame.lit p) := by
  have hrow := row?_eq m.display.frame p.y
  have hbit : ((m.display.frame.lit p).toUInt8 == 1) = m.display.frame.lit p := by
    cases m.display.frame.lit p <;> rfl
  simp only [toggle?, ofMachine, hrow, cell?_ofCells, hbit, put?_eq p.x.isLt, put?_eq p.y.isLt,
    Option.bind_eq_bind, Option.bind_some]
  rw [Display.toggle, ofCells_toggle]
  rfl

/-- The machine after cells were turned over one by one: the flag register notes a cell that was on,
and is not reset by one that was off. -/
def turned (points : List Point) : Machine :=
  { m with
    registers :=
      if m.display.frame.collides points then m.registers.set Machine.flag 1 else m.registers
    display := { m.display with frame := m.display.frame.toggleAll points } }

theorem turned_of_lit {m : Machine} {p : Point} (h : m.display.frame.lit p = true)
    (rest : List Point) :
    turned ({ m with display := m.display.toggle p }.setFlag true) rest = turned m (p :: rest) := by
  cases hrest : (m.display.frame.toggle p).collides rest <;>
    simp [turned, Machine.setFlag, Machine.setRegister, Display.toggle, Frame.collides,
      Frame.toggleAll, h, hrest]

theorem turned_of_unlit {m : Machine} {p : Point} (h : m.display.frame.lit p = false)
    (rest : List Point) :
    turned { m with display := m.display.toggle p } rest = turned m (p :: rest) := by
  cases hrest : (m.display.frame.toggle p).collides rest <;>
    simp [turned, Display.toggle, Frame.collides, Frame.toggleAll, h, hrest]

theorem toggleAll?_eq (points : List Point) :
    (ofMachine m).toggleAll? (points.map fun p => (p.x.val, p.y.val)) =
      some (ofMachine (turned m points)) := by
  induction points generalizing m with
  | nil => rfl
  | cons p rest ih =>
    rw [List.map_cons, toggleAll?, toggle?_eq]
    simp only [Option.bind_eq_bind, Option.bind_some]
    cases hp : m.display.frame.lit p with
    | true =>
      -- The flag is written once for every cell that was on; only the first write shows.
      have hflag := setV?_flag { m with display := m.display.toggle p } true
      simp only [if_true]
      show ((ofMachine { m with display := m.display.toggle p }).setV? flag true.toUInt8).bind _ = _
      rw [hflag, Option.bind_some, ih, turned_of_lit hp]
    | false =>
      show (ofMachine { m with display := m.display.toggle p }).toggleAll? _ = _
      rw [ih, turned_of_unlit hp]

theorem place_eq (edges : EdgePolicy) (x y : Nat) :
    place edges x y = (edges.place x y).map (Option.map fun p => (p.x.val, p.y.val)) := by
  cases edges with
  | wrap => rfl
  | clip | fault =>
    by_cases h : x < 64 ∧ y < 32 <;>
      simp [place, EdgePolicy.place, Frame.point?, Frame.width, Frame.height, h, Except.map]

theorem lit?_eq (bits : UInt8) {column : Nat} (h : column < 8) :
    lit? bits column = some (bits.toNat.testBit (7 - column)) := by
  have hd : 7 - column < 8 := by omega
  have hbit : (bits >>> UInt8.ofNat (7 - column) &&& 1).toNat =
      1 &&& bits.toNat >>> (7 - column) := by
    rw [UInt8.toNat_and, UInt8.toNat_shiftRight, UInt8.toNat_ofNat', Nat.and_comm,
      Nat.mod_eq_of_lt (show 7 - column < 2 ^ 8 by omega), Nat.mod_eq_of_lt hd]
    rfl
  rw [lit?, less?_eq (by omega)]
  simp only [Option.bind_eq_bind, Option.bind_some, if_pos hd]
  -- A bit is tested in the number and in the byte alike: what is left of it is not zero.
  rw [Nat.testBit, ← hbit]
  congr 1
  rw [Bool.eq_iff_iff]
  simp [← UInt8.toNat_inj]

/-- The test that picks the lit cells. -/
def isLit (c : UInt8 × Nat × Nat) : Bool :=
  c.1.toNat.testBit (7 - c.2.1)

theorem pixels?_eq (edges : EdgePolicy) {x y : Nat} (hx : x < 256) (hy : y < 256)
    {cells : List (UInt8 × Nat × Nat)} (h : ∀ c ∈ cells, c.2.1 < 8 ∧ c.2.2 < 16) :
    pixels? edges x y cells =
      some ((edges.placeAll x y ((cells.filter isLit).map Prod.snd)).map
        (List.map fun p => (p.x.val, p.y.val))) := by
  induction cells with
  | nil => rfl
  | cons c rest ih =>
    obtain ⟨bits, column, row⟩ := c
    have hcolumn : column < 8 := (h _ (List.mem_cons_self ..)).1
    have hrow : row < 16 := (h _ (List.mem_cons_self ..)).2
    have hrest := ih fun c hc => h c (List.mem_cons_of_mem _ hc)
    -- Coordinates are sums of a register and a place inside the sprite, far below any limit.
    have hpx : x + column < sizeLimit := lt_sizeLimit (by omega)
    have hpy : y + row < sizeLimit := lt_sizeLimit (by omega)
    rw [pixels?, lit?_eq bits hcolumn]
    cases hlit : bits.toNat.testBit (7 - column) with
    | false =>
      simp [isLit, hlit, hrest]
    | true =>
      simp only [Option.bind_eq_bind, Option.bind_some, if_true, within?_eq hpx, within?_eq hpy,
        place_eq, hrest, List.filter_cons, isLit, hlit, List.map_cons, EdgePolicy.placeAll]
      cases edges.place (x + column) (y + row) with
      | error f => rfl
      | ok point =>
        cases edges.placeAll x y ((rest.filter isLit).map Prod.snd) with
        | error f => rfl
        | ok points => cases point <;> rfl

theorem litCells_eq (sprite : List UInt8) :
    Sprite.litCells sprite = ((spriteCells sprite).filter isLit).map Prod.snd := by
  simp only [Sprite.litCells, spriteCells, Sprite.litColumns, List.filter_flatMap,
    List.map_flatMap, List.filter_map, List.map_map]
  rfl

theorem mem_spriteCells {sprite : List UInt8} (h : sprite.length < 16) {c : UInt8 × Nat × Nat}
    (hc : c ∈ spriteCells sprite) : c.2.1 < 8 ∧ c.2.2 < 16 := by
  simp only [spriteCells, List.mem_flatMap, List.mem_map, List.mem_range] at hc
  obtain ⟨⟨bits, row⟩, hrow, column, hcolumn, rfl⟩ := hc
  have := List.snd_lt_of_mem_zipIdx hrow
  exact ⟨hcolumn, by simpa using by omega⟩

end
end Raw
end ChipEight
