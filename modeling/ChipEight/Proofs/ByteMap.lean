import ChipEight.Machine.Bench

/-!
Memory as a map from addresses to bytes. A call that writes to memory either lays one block of bytes
over the map or is refused, and which of the two it is does not depend on what memory holds
(`Memory.Call.block`). So what a memory on the bench holds after any calls is found by laying the
blocks of the accepted ones over the map, in order (`Memory.Shows.afterBench`).

The map and the refusals are told by their own numbers: the bounds of memory and of an image, where
an image is put, and the bytes of the font.
-/
namespace ChipEight

/-- Which byte stands at which address. -/
abbrev ByteMap := Nat → UInt8

namespace ByteMap

/-- Lays a block of bytes over the map. -/
def lay (map : ByteMap) (start : Nat) (bytes : List UInt8) : ByteMap := fun a =>
  if h : start ≤ a ∧ a - start < bytes.length then bytes[a - start] else map a

end ByteMap

namespace Memory

/-- The calls that write to memory. -/
inductive Call where
  | write (address : UInt16) (data : List UInt8)
  | writeByte (address : UInt16) (value : UInt8)
  | load (image : List UInt8)
  | loadFrom (stream : List Chunk)
  | loadFont

namespace Call

/-- The call as a request on the bench. -/
def request : Call → BenchRequest
  | write address data => .write address data
  | writeByte address value => .writeByte address value
  | load image => .host (.load image)
  | loadFrom stream => .host (.loadFrom stream)
  | loadFont => .loadFont

/-- Where a program image is put, unless it is too large. -/
def imageBlock (image : List UInt8) : Except Reply (Nat × List UInt8) :=
  if image.length ≤ 3584 then .ok (0x200, image)
  else .error (.failed (.imageTooLarge image.length))

/-- The eighty bytes of the sprites of the sixteen digits, two sprites a line. -/
def fontBytes : List UInt8 :=
  [0xF0, 0x90, 0x90, 0x90, 0xF0, 0x20, 0x60, 0x20, 0x20, 0x70,
   0xF0, 0x10, 0xF0, 0x80, 0xF0, 0xF0, 0x10, 0xF0, 0x10, 0xF0,
   0x90, 0x90, 0xF0, 0x10, 0x10, 0xF0, 0x80, 0xF0, 0x10, 0xF0,
   0xF0, 0x80, 0xF0, 0x90, 0xF0, 0xF0, 0x10, 0x20, 0x40, 0x40,
   0xF0, 0x90, 0xF0, 0x90, 0xF0, 0xF0, 0x90, 0xF0, 0x10, 0xF0,
   0xF0, 0x90, 0xF0, 0x90, 0x90, 0xE0, 0x90, 0xE0, 0x90, 0xE0,
   0xF0, 0x80, 0x80, 0x80, 0xF0, 0xE0, 0x90, 0x90, 0x90, 0xE0,
   0xF0, 0x80, 0xF0, 0x80, 0xF0, 0xF0, 0x80, 0xF0, 0x80, 0x80]

/-- The bytes a call puts into memory and where it puts the first of them, or the reply that
refuses it. -/
def block : Call → Except Reply (Nat × List UInt8)
  | write address data =>
      if address.toNat + data.length ≤ 4096 then .ok (address.toNat, data)
      else if HasEnd address data.length then
        .error (.failed (.addressOutOfRange (max address.toNat 4096)))
      else .error .noSuchPlace
  | writeByte address value =>
      if address.toNat < 4096 then .ok (address.toNat, [value])
      else .error (.failed (.addressOutOfRange address.toNat))
  | load image => imageBlock image
  | loadFrom stream =>
      match Chunk.gather stream with
      | .ok image => imageBlock image
      | .error f => .error (.failed f)
  | loadFont => .ok (0x050, fontBytes)

/-- What a call makes of the map. -/
def note (map : ByteMap) (call : Call) : ByteMap :=
  match call.block with
  | .ok (start, bytes) => map.lay start bytes
  | .error _ => map

end Call

/-! ## Blocks -/

/-- Memory holds what the map says. -/
def Shows (m : Memory) (map : ByteMap) : Prop :=
  ∀ a < 4096, m.byte a = map a

theorem Shows.put {m : Memory} {map : ByteMap} (h : m.Shows map) (start : Nat)
    (bytes : List UInt8) : (m.put start bytes).Shows (map.lay start bytes) := by
  intro a ha
  rw [byte_put, ByteMap.lay]
  by_cases hin : start ≤ a ∧ a - start < bytes.length
  · have hall : start ≤ a ∧ a < start + bytes.length ∧ a < size := ⟨hin.1, by omega, ha⟩
    rw [if_pos hall, dif_pos hin, List.getElem?_eq_getElem hin.2]
    rfl
  · have hout : ¬(start ≤ a ∧ a < start + bytes.length ∧ a < size) := by omega
    rw [if_neg hout, dif_neg hin, h a ha]

theorem Shows.read {m : Memory} {map : ByteMap} (h : m.Shows map) (address : UInt16) (length : Nat)
    (hend : HasEnd address length) :
    m.read address length hend =
      if address.toNat + length ≤ 4096 then
        .ok ((List.range length).map fun k => map (address.toNat + k))
      else .error (.addressOutOfRange (max address.toNat 4096)) := by
  rw [read_eq]
  show (if address.toNat + length ≤ 4096 then _ else _) = _
  split
  · rename_i hrange
    refine congrArg Except.ok (List.map_congr_left fun k hk => h _ ?_)
    rw [List.mem_range] at hk
    omega
  · rfl

/-- A range that lies in memory has an end. -/
theorem hasEnd_of_le_size {address : UInt16} {length : Nat} (h : address.toNat + length ≤ 4096) :
    HasEnd address length :=
  hasEnd_of_le address (by omega)

namespace Call

theorem sheet_eq_fontBytes : Font.sheet = fontBytes := by
  decide

theorem ofOutcome_store_load (m : Machine) (image : List UInt8) (log : List Log.Entry) :
    Answer.ofOutcome (m.store (m.memory.load image)) log =
      match imageBlock image with
      | .ok (start, bytes) => ⟨m.withMemory (m.memory.put start bytes), .done, log⟩
      | .error reply => .tell m reply := by
  rw [Memory.load, imageBlock]
  show Answer.ofOutcome (m.store (if image.length ≤ 3584 then _ else _)) log = _
  split <;> rfl

/-- A call puts its block into memory, or changes nothing at all. -/
theorem exists_serveBench (m : Machine) (call : Call) :
    ∃ log, m.serveBench call.request =
      match call.block with
      | .ok (start, bytes) => ⟨m.withMemory (m.memory.put start bytes), .done, log⟩
      | .error reply => .tell m reply := by
  cases call with
  | write address data =>
    refine ⟨[], ?_⟩
    rw [request, block, Machine.serveBench]
    by_cases hend : HasEnd address data.length
    · rw [dif_pos hend, if_pos hend, write_eq]
      show Answer.ofOutcome (m.store (if address.toNat + data.length ≤ 4096 then _ else _)) _ = _
      split <;> rfl
    · rw [dif_neg hend, if_neg (mt hasEnd_of_le_size hend), if_neg hend]
  | writeByte address value =>
    refine ⟨[], ?_⟩
    rw [request, block, Machine.serveBench, Memory.writeByte]
    show Answer.ofOutcome (m.store (if address.toNat < 4096 then _ else _)) _ = _
    split <;> rfl
  | load image => exact ⟨_, ofOutcome_store_load m image _⟩
  | loadFrom stream =>
    refine ⟨[.loaded (Chunk.total stream)], ?_⟩
    rw [request, block, Machine.serveBench, Machine.serve, Machine.loadFrom, Memory.loadFrom]
    cases Chunk.gather stream with
    | error f => rfl
    | ok image => exact ofOutcome_store_load m image _
  | loadFont =>
    refine ⟨[], ?_⟩
    rw [request, block, Machine.serveBench, Memory.loadFont, sheet_eq_fontBytes]
    rfl

/-- A call that has a block is accepted and puts it into memory. -/
theorem serveBench_of_ok {call : Call} {start : Nat} {bytes : List UInt8}
    (h : call.block = .ok (start, bytes)) (m : Machine) :
    (m.serveBench call.request).reply = .done ∧
      (m.serveBench call.request).machine = m.withMemory (m.memory.put start bytes) := by
  obtain ⟨log, hserve⟩ := exists_serveBench m call
  rw [hserve, h]
  exact ⟨rfl, rfl⟩

/-- A call that is refused changes nothing at all. -/
theorem serveBench_of_error {call : Call} {reply : Reply} (h : call.block = .error reply)
    (m : Machine) : m.serveBench call.request = .tell m reply := by
  obtain ⟨log, hserve⟩ := exists_serveBench m call
  rw [hserve, h]

end Call

theorem Shows.serveBench {m : Machine} {map : ByteMap} (h : m.memory.Shows map) (call : Call) :
    (m.serveBench call.request).machine.memory.Shows (call.note map) := by
  rw [Call.note]
  cases hblock : call.block with
  | ok block =>
    obtain ⟨-, hmachine⟩ := Call.serveBench_of_ok hblock m
    rw [hmachine]
    exact h.put block.1 block.2
  | error reply =>
    rw [Call.serveBench_of_error hblock]
    exact h

theorem Shows.afterBench {m : Machine} {map : ByteMap} (h : m.memory.Shows map)
    (calls : List Call) :
    (m.afterBench (calls.map Call.request)).memory.Shows (calls.foldl Call.note map) := by
  induction calls generalizing m map with
  | nil => exact h
  | cons call rest ih => exact ih (h.serveBench call)

/-! ## Bytes and words -/

theorem toNat_word (m : Memory) (a : Nat) :
    (m.word a).toNat = 256 * (m.byte a).toNat + (m.byte (a + 1)).toNat := by
  have hhigh := (m.byte a).toNat_lt
  have hlow := (m.byte (a + 1)).toNat_lt
  rw [word, UInt16.toNat_or, UInt16.toNat_shiftLeft, UInt8.toNat_toUInt16, UInt8.toNat_toUInt16]
  show (m.byte a).toNat <<< 8 % 2 ^ 16 ||| (m.byte (a + 1)).toNat = _
  rw [Nat.mod_eq_of_lt (by rw [Nat.shiftLeft_eq]; omega),
    ← Nat.shiftLeft_add_eq_or_of_lt hlow, Nat.shiftLeft_eq, Nat.mul_comm]

/-- A shorter image leaves what is behind it, and a write that does not fit is no write at all. -/
example :
    let map := [Call.load [1, 2, 3], .write 0xFFE [7, 7, 7], .load [9], .writeByte 0x203 4].foldl
      Call.note fun _ => 0
    [0x200, 0x201, 0x202, 0x203, 0xFFE].map map = [9, 2, 3, 4, 0] := by decide

end Memory
end ChipEight
