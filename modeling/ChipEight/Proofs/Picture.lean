import ChipEight.Host.Screen

/-!
What a picture looks like in a buffer. `Picture.copyRows?_spec` says what the rows of a picture
become when they are written some pitch apart: each lands where its number says, and no other byte
changes. Reading the buffer back gives the frame again, so a screen shows what it was given,
whatever the padding of its rows.
-/
namespace ChipEight

namespace Picture

/-! ## Bytes of a row -/

@[simp] theorem length_cell (on : Bool) : (cell on).length = 3 := rfl

/-- In rows of one length, end to end, each element is found by its row and its place in the
row. -/
theorem getElem?_flatten {α : Type} {len : Nat} {rows : List (List α)}
    (hlen : ∀ row ∈ rows, row.length = len) (y : Nat) {k : Nat} (hk : k < len) :
    rows.flatten[y * len + k]? = rows[y]?.bind (·[k]?) := by
  induction rows generalizing y with
  | nil => simp
  | cons row rest ih =>
    have hrow : row.length = len := hlen row List.mem_cons_self
    rw [List.flatten_cons]
    cases y with
    | zero =>
      rw [Nat.zero_mul, Nat.zero_add, List.getElem?_append_left (by omega)]
      rfl
    | succ y =>
      rw [Nat.succ_mul, List.getElem?_append_right (by omega), hrow,
        show y * len + len + k - len = y * len + k by omega,
        ih (fun other hother => hlen other (List.mem_cons_of_mem row hother))]
      rfl

/-- Rows of one length, end to end, can be cut apart again. -/
theorem take_drop_flatten {α : Type} {len : Nat} {rows : List (List α)}
    (hlen : ∀ row ∈ rows, row.length = len) {y : Nat} (hy : y < rows.length) :
    (rows.flatten.drop (y * len)).take len = rows[y] := by
  refine List.ext_getElem? fun k => ?_
  rw [List.getElem?_take]
  split
  · rename_i hk
    rw [List.getElem?_drop, getElem?_flatten hlen y hk, List.getElem?_eq_getElem hy,
      Option.bind_some]
  · rename_i hk
    rw [List.getElem?_eq_none (by rw [hlen _ (List.getElem_mem hy)]; omega)]

theorem getElem?_cells (cells : List Bool) (x : Nat) {c : Nat} (hc : c < 3) :
    (cells.flatMap cell)[3 * x + c]? = cells[x]?.map fun on => if on then 255 else 0 := by
  have hlen : ∀ bytes ∈ cells.map cell, bytes.length = 3 := by
    intro bytes hbytes
    obtain ⟨on, -, rfl⟩ := List.mem_map.mp hbytes
    exact length_cell on
  rw [List.flatMap_def, Nat.mul_comm, getElem?_flatten hlen x hc, List.getElem?_map]
  cases cells[x]? with
  | none => rfl
  | some on =>
    change (cell on)[c]? = _
    rw [cell, List.getElem?_replicate, if_pos hc]
    rfl

theorem length_row (cells : Vector Bool 64) : (row cells).length = rowSize := by
  simp [row, rowSize, List.length_flatMap, List.map_const']

theorem length_of_mem_rows {f : Frame} {bytes : List UInt8} (h : bytes ∈ rows f) :
    bytes.length = rowSize := by
  obtain ⟨cells, -, rfl⟩ := List.mem_map.mp h
  exact length_row cells

@[simp] theorem length_rows (f : Frame) : (rows f).length = Frame.height := by
  simp [rows, Frame.height]

/-- Each byte of a picture is the cell it belongs to. -/
theorem getElem?_rows (f : Frame) (p : Point) {c : Nat} (hc : c < 3) :
    (rows f)[p.y.val]?.bind (·[3 * p.x.val + c]?) = some (if f.lit p then 255 else 0) := by
  have hrow : (rows f)[p.y.val]? = some (row f.rows[p.y]) := by simp [rows]
  rw [hrow, Option.bind_some, row, getElem?_cells _ _ hc]
  simp only [Vector.getElem?_toList, Fin.is_lt, Vector.getElem?_eq_getElem, Option.map_some]
  rfl

/-! ## Rows in a buffer -/

theorem size_copy (buffer : Array UInt8) (start : Nat) (bytes : List UInt8) :
    (copy buffer start bytes).size = buffer.size := by
  induction bytes generalizing buffer start with
  | nil => rfl
  | cons b rest ih => rw [copy, ih, Array.size_setIfInBounds]

theorem getElem?_copy_outside (buffer : Array UInt8) (start : Nat) (bytes : List UInt8) {a : Nat}
    (ha : a < start ∨ start + bytes.length ≤ a) :
    (copy buffer start bytes)[a]? = buffer[a]? := by
  induction bytes generalizing buffer start with
  | nil => rfl
  | cons b rest ih =>
    simp only [List.length_cons] at ha
    rw [copy, ih _ _ (by omega), Array.getElem?_setIfInBounds_ne (by omega)]

theorem getElem?_copy_inside (buffer : Array UInt8) (start : Nat) (bytes : List UInt8) {k : Nat}
    (hk : k < bytes.length) (hfit : start + bytes.length ≤ buffer.size) :
    (copy buffer start bytes)[start + k]? = bytes[k]? := by
  induction bytes generalizing buffer start k with
  | nil => simp at hk
  | cons b rest ih =>
    simp only [List.length_cons] at hk hfit
    rw [copy]
    cases k with
    | zero =>
      have hsize : start < buffer.size := by omega
      rw [Nat.add_zero, getElem?_copy_outside _ _ _ (.inl (by omega))]
      simp [hsize]
    | succ k =>
      rw [show start + (k + 1) = start + 1 + k by omega, List.getElem?_cons_succ]
      exact ih _ _ (by omega) (by rw [Array.size_setIfInBounds]; omega)

/-- Rows that fit are all written: each byte of them where its row starts, and no other byte. -/
theorem copyRows?_spec {pitch len : Nat} (hpitch : len ≤ pitch) (start : Nat)
    (buffer : Array UInt8) (rows : List (List UInt8)) (hlen : ∀ row ∈ rows, row.length = len)
    (hfit : ∀ y < rows.length, start + y * pitch + len ≤ buffer.size) :
    ∃ out, copyRows? pitch start buffer rows = some out ∧ out.size = buffer.size ∧
      (∀ y < rows.length, ∀ k < len, out[start + y * pitch + k]? = rows[y]?.bind (·[k]?)) ∧
      ∀ a, (∀ y < rows.length, a < start + y * pitch ∨ start + y * pitch + len ≤ a) →
        out[a]? = buffer[a]? := by
  induction rows generalizing start buffer with
  | nil => exact ⟨buffer, rfl, rfl, by simp, fun _ _ => rfl⟩
  | cons row rest ih =>
    have hrow : row.length = len := hlen row List.mem_cons_self
    have hfirst : start + row.length ≤ buffer.size := by
      have := hfit 0 (by simp)
      rw [hrow]
      omega
    have hrest : ∀ y < rest.length,
        start + pitch + y * pitch + len ≤ (copy buffer start row).size := by
      intro y hy
      have := hfit (y + 1) (by simpa using hy)
      rw [size_copy]
      rw [Nat.succ_mul] at this
      omega
    obtain ⟨out, hout, hsize, hin, hother⟩ := ih (start + pitch) (copy buffer start row)
      (fun r hr => hlen r (List.mem_cons_of_mem row hr)) hrest
    refine ⟨out, by simp [copyRows?, hfirst, hout], by rw [hsize, size_copy], ?_, ?_⟩
    · intro y hy k hk
      cases y with
      | zero =>
        -- the rows behind the first one do not reach back to it
        rw [Nat.zero_mul, Nat.add_zero, hother _ fun y hy => .inl (by omega),
          getElem?_copy_inside _ _ _ (by omega) hfirst]
        simp
      | succ y =>
        rw [Nat.succ_mul, show start + (y * pitch + pitch) + k = start + pitch + y * pitch + k by
          omega, hin y (by simpa using hy) k hk]
        simp
    · intro a ha
      rw [hother a fun y hy => ?_, getElem?_copy_outside _ _ _ ?_]
      · have := ha 0 (by simp)
        rw [hrow]
        omega
      · have := ha (y + 1) (by simpa using hy)
        rw [Nat.succ_mul] at this
        omega

/-- A picture fits into a buffer of as many rows as a frame has. Each of its rows lands whole, and
no byte between the rows changes. -/
theorem blit?_spec {pitch : Nat} (hpitch : rowSize ≤ pitch) (f : Frame) (buffer : Array UInt8)
    (hsize : 31 * pitch + rowSize ≤ buffer.size) :
    ∃ out, blit? pitch f buffer = some out ∧ out.size = buffer.size ∧
      (∀ y < Frame.height, ∀ k < rowSize,
        out[y * pitch + k]? = (rows f)[y]?.bind (·[k]?)) ∧
      ∀ a, (∀ y < Frame.height, a < y * pitch ∨ y * pitch + rowSize ≤ a) →
        out[a]? = buffer[a]? := by
  have hfit : ∀ y < (rows f).length, 0 + y * pitch + rowSize ≤ buffer.size := by
    intro y hy
    have hy31 : y ≤ 31 := by
      rw [length_rows] at hy
      exact Nat.le_of_lt_succ hy
    have := Nat.mul_le_mul_right pitch hy31
    omega
  have hspec := copyRows?_spec hpitch 0 buffer (rows f) (fun _ => length_of_mem_rows) hfit
  simp only [Nat.zero_add, length_rows] at hspec
  exact hspec

/-- Each byte of a picture in a buffer is the cell it belongs to. -/
theorem getElem?_blit? {pitch : Nat} {f : Frame} {out : Array UInt8}
    (hrows : ∀ y < Frame.height, ∀ k < rowSize,
      out[y * pitch + k]? = (rows f)[y]?.bind (·[k]?)) (p : Point) {c : Nat} (hc : c < 3) :
    out[p.y.val * pitch + 3 * p.x.val + c]? = some (if f.lit p then 255 else 0) := by
  have hk : 3 * p.x.val + c < rowSize := by
    have := p.x.isLt
    simp only [rowSize]
    omega
  rw [Nat.add_assoc, hrows p.y.val p.y.isLt _ hk]
  exact getElem?_rows f p hc

/-- Reading the buffer gives the frame back. -/
theorem shown_blit? {pitch : Nat} (hpitch : rowSize ≤ pitch) (f : Frame) (buffer : Array UInt8)
    (hsize : 31 * pitch + rowSize ≤ buffer.size) :
    ∃ out, blit? pitch f buffer = some out ∧ shown pitch out = f := by
  obtain ⟨out, hout, -, hrows, -⟩ := blit?_spec hpitch f buffer hsize
  refine ⟨out, hout, Frame.ext_lit fun p => ?_⟩
  have hlit : (shown pitch out).lit p =
      decide (out[p.y.val * pitch + 3 * p.x.val]?.getD 0 ≠ 0) := by
    simp [shown, Frame.lit]
  have hbyte := getElem?_blit? hrows p (c := 0) (by decide)
  rw [Nat.add_zero] at hbyte
  rw [hlit, hbyte]
  cases f.lit p <;> rfl

/-! ## A picture on its own -/

/-- A picture is its rows, end to end. -/
theorem getElem?_ofFrame (f : Frame) (y : Nat) {k : Nat} (hk : k < rowSize) :
    (ofFrame f)[y * rowSize + k]? = (rows f)[y]?.bind (·[k]?) :=
  getElem?_flatten (fun _ => length_of_mem_rows) y hk

/-- Cut into pieces of one row each, a picture gives its rows back. -/
theorem pieces_ofFrame (f : Frame) :
    ((List.range Frame.height).map fun y => ((ofFrame f).drop (y * rowSize)).take rowSize) =
      rows f := by
  refine List.ext_getElem (by simp) fun y hy hy' => ?_
  rw [List.getElem_map, List.getElem_range]
  exact take_drop_flatten (fun _ => length_of_mem_rows) hy'

theorem length_ofFrame (f : Frame) : (ofFrame f).length = 6144 := by
  have hlen : ∀ row ∈ rows f, row.length = rowSize := fun _ => length_of_mem_rows
  rw [ofFrame, List.length_flatten, List.map_congr_left hlen, List.map_const',
    List.sum_replicate_nat, length_rows]
  rfl

/-- Rows without padding make the picture, whatever was in the buffer. -/
theorem blit?_unpadded (f : Frame) {buffer : Array UInt8} (hsize : buffer.size = 6144) :
    blit? rowSize f buffer = some (ofFrame f).toArray := by
  obtain ⟨out, hout, hkept, hrows, -⟩ :=
    blit?_spec (Nat.le_refl rowSize) f buffer (by rw [hsize]; decide)
  rw [hout, Option.some_inj]
  refine Array.ext_getElem? fun a => ?_
  by_cases ha : a < 6144
  · have hmod : a % rowSize < rowSize := Nat.mod_lt a (by decide)
    have hdiv : a / rowSize < Frame.height := Nat.div_lt_of_lt_mul ha
    rw [← Nat.div_add_mod' a rowSize, hrows _ hdiv _ hmod, List.getElem?_toArray,
      getElem?_ofFrame f _ hmod]
  · rw [Array.getElem?_eq_none (by omega), Array.getElem?_eq_none]
    rw [List.size_toArray, length_ofFrame]
    omega

/-- A picture can be read back. -/
theorem shown_ofFrame (f : Frame) : shown rowSize (ofFrame f).toArray = f := by
  obtain ⟨out, hout, hshown⟩ := shown_blit? (Nat.le_refl rowSize) f (Array.replicate 6144 0)
    (by rw [Array.size_replicate]; decide)
  rw [blit?_unpadded f Array.size_replicate, Option.some_inj] at hout
  rw [hout, hshown]

/-- A picture tells its frame. -/
theorem ofFrame_inj (f g : Frame) : ofFrame f = ofFrame g ↔ f = g := by
  refine ⟨fun h => ?_, fun h => by rw [h]⟩
  rw [← shown_ofFrame f, h, shown_ofFrame]

/-! ## Any distance between the rows -/

/-- A byte that belongs to no cell lies outside every row. -/
theorem outside_rows {pitch a : Nat}
    (ha : ∀ p : Point, ∀ c < 3, a ≠ p.y.val * pitch + 3 * p.x.val + c) :
    ∀ y < Frame.height, a < y * pitch ∨ y * pitch + rowSize ≤ a := by
  intro y hy
  rcases Nat.lt_or_ge a (y * pitch) with hbefore | hstart
  · exact .inl hbefore
  rcases Nat.lt_or_ge a (y * pitch + rowSize) with hend | hbehind
  · have hcolumn : (a - y * pitch) / 3 < 64 := by
      simp only [rowSize] at hend
      omega
    have hplace : a = y * pitch + 3 * ((a - y * pitch) / 3) + (a - y * pitch) % 3 := by omega
    exact absurd hplace (ha ⟨⟨_, hcolumn⟩, ⟨y, hy⟩⟩ _ (Nat.mod_lt _ (by decide)))
  · exact .inr hbehind

/-- **A frame is written exactly, whatever the distance between the rows of the buffer.** Its
picture is cut into rows, and no byte of them is out of reach: each cell's three bytes come to be at
full strength or zero as the cell is on or off, and every other byte stays what it was. A picture on
its own is what rows without padding become, and tells its frame; so what is seen in the buffer is
the frame, however far apart its rows are. -/
theorem written_exactly_at_any_pitch (f : Frame) (pitch : Nat) (buffer : Array UInt8)
    (hpitch : rowSize ≤ pitch) (hsize : 31 * pitch + rowSize ≤ buffer.size) :
    (∃ out, blit? pitch f buffer = some out ∧ out.size = buffer.size ∧
      (∀ p : Point, ∀ c < 3,
        out[p.y.val * pitch + 3 * p.x.val + c]? = some (255 * (f.lit p).toUInt8)) ∧
      (∀ a, (∀ p : Point, ∀ c < 3, a ≠ p.y.val * pitch + 3 * p.x.val + c) →
        out[a]? = buffer[a]?) ∧
      (∀ y < Frame.height, ∀ k < rowSize,
        out[y * pitch + k]? = (ofFrame f)[y * rowSize + k]?) ∧
      shown pitch out = f) ∧
    blit? pitch f buffer = copyRows? pitch 0 buffer
      ((List.range Frame.height).map fun y => ((ofFrame f).drop (y * rowSize)).take rowSize) ∧
    (ofFrame f).length = 6144 ∧
    (∀ tight : Array UInt8, tight.size = 6144 →
      blit? rowSize f tight = some (ofFrame f).toArray) ∧
    ∀ g, ofFrame g = ofFrame f ↔ g = f := by
  obtain ⟨out, hout, hkept, hrows, hother⟩ := blit?_spec hpitch f buffer hsize
  obtain ⟨_, hout', hshown⟩ := shown_blit? hpitch f buffer hsize
  obtain rfl : out = _ := Option.some_inj.mp (hout.symm.trans hout')
  refine ⟨⟨out, hout, hkept, fun p c hc => ?_, fun a ha => hother a (outside_rows ha),
    fun y hy k hk => ?_, hshown⟩, by rw [pieces_ofFrame, blit?], length_ofFrame f,
    fun _ => blit?_unpadded f, fun g => ofFrame_inj g f⟩
  · rw [getElem?_blit? hrows p hc]
    cases f.lit p <;> rfl
  · rw [hrows y hy k hk, getElem?_ofFrame f y hk]

/-- One lit cell in the second row of a buffer with three bytes between its rows: its bytes are at
full strength, and the bytes between the rows stay. -/
theorem written_exactly_with_three_bytes_between :
    ∃ out, blit? 195 (Frame.blank.toggle ⟨1, 1⟩) (Array.replicate 6237 7) = some out ∧
      out[198]? = some 255 ∧ out[194]? = some 7 := by
  obtain ⟨⟨out, hout, -, hcells, hother, -⟩, -⟩ :=
    written_exactly_at_any_pitch (Frame.blank.toggle ⟨1, 1⟩) 195 (Array.replicate 6237 7)
      (by decide) (by rw [Array.size_replicate]; decide)
  refine ⟨out, hout, ?_, ?_⟩
  · have hcell := hcells ⟨1, 1⟩ 0 (by decide)
    rw [Frame.lit_toggle] at hcell
    exact hcell
  · rw [hother 194 fun p c hc => ?_, Array.getElem?_replicate, if_pos (by decide)]
    have := p.x.isLt
    omega

end Picture

/-- What is seen of a frame is the frame, whatever lies between the rows. -/
theorem Host.Screen.seen_eq (padding : Nat) (f : Frame) : Host.Screen.seen padding f = some f := by
  have hsize : 31 * (Picture.rowSize + padding) + Picture.rowSize ≤
      (Array.replicate ((Picture.rowSize + padding) * Frame.height) (0 : UInt8)).size := by
    simp only [Array.size_replicate, Frame.height]
    omega
  obtain ⟨out, hout, hshown⟩ := Picture.shown_blit? (Nat.le_add_right _ padding) f _ hsize
  simp only [seen, hout, Option.map_some, hshown]

end ChipEight
