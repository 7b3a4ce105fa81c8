import ChipEight.Fault
import ChipEight.Font

/-!
Memory: 4096 bytes, the first 512 of them reserved. `Memory.byte` is the view every operation is
described by: what each address holds, zero for the addresses that do not exist. Block operations
are all or nothing: `read` and `write` refuse a range that memory does not have as a whole. They are
partial: where a range ends is counted in a machine word, and a range whose end no word counts
(`Memory.HasEnd`) has no answer, not even a refusal.
-/
namespace ChipEight

/-- The bytes a machine can address. -/
structure Memory where
  bytes : Vector UInt8 4096
  deriving DecidableEq

namespace Memory

/-- The number of addresses. -/
def size : Nat := 4096

/-- Where program images are put. -/
def programStart : Nat := 0x200

/-- Memory with nothing in it. -/
def empty : Memory :=
  ⟨Vector.replicate 4096 0⟩

/-- What an address holds; zero beyond the end. -/
def byte (m : Memory) (address : Nat) : UInt8 :=
  m.bytes[address]?.getD 0

/-- Puts bytes one after the other, leaving out those that fall beyond the end. -/
def put (m : Memory) : Nat → List UInt8 → Memory
  | _, [] => m
  | address, b :: rest => (Memory.mk (m.bytes.setIfInBounds address b)).put (address + 1) rest

/-- The end of a range, its first address and its length together, is a number a machine word can
hold. -/
def HasEnd (address : UInt16) (length : Nat) : Prop :=
  address.toNat + length < USize.size

theorem hasEnd_of_le (address : UInt16) {length : Nat} (h : length ≤ 0x10000) :
    HasEnd address length := by
  have haddress : address.toNat < 0x10000 := address.toNat_lt
  have hword : 0x100000000 ≤ USize.size := USize.le_size
  unfold HasEnd
  omega

/-- A sprite has fewer than sixteen rows, so the range of its rows has an end. -/
theorem hasEnd_rows (address : UInt16) (rows : Fin 16) : HasEnd address rows.val :=
  hasEnd_of_le address (by omega)

/-- A short range has an end, however wide a word is. -/
instance HasEnd.decidable (address : UInt16) (length : Nat) : Decidable (HasEnd address length) :=
  if h : length ≤ 0x10000 then .isTrue (hasEnd_of_le address h)
  else inferInstanceAs (Decidable (address.toNat + length < USize.size))

/-- Refuses a range that memory does not have, naming the first address that is missing. -/
def checkRange (address : UInt16) (length : Nat) (_ : HasEnd address length) :
    Except Fault Unit :=
  if address.toNat + length ≤ size then .ok ()
  else .error (.addressOutOfRange (max address.toNat size))

/-- The bytes of a range. -/
def read (m : Memory) (address : UInt16) (length : Nat)
    (h : HasEnd address length := by
      first | exact Memory.hasEnd_rows _ _ | exact Memory.hasEnd_of_le _ (by omega)) :
    Except Fault (List UInt8) := do
  checkRange address length h
  return (List.range length).map fun k => m.byte (address.toNat + k)

/-- Overwrites the range that starts at an address. -/
def write (m : Memory) (address : UInt16) (data : List UInt8) (h : HasEnd address data.length) :
    Except Fault Memory := do
  checkRange address data.length h
  return m.put address.toNat data

/-- The byte at an address. -/
def readByte (m : Memory) (address : UInt16) : Except Fault UInt8 :=
  if address.toNat < size then .ok (m.byte address.toNat)
  else .error (.addressOutOfRange address.toNat)

/-- Overwrites the byte at an address. -/
def writeByte (m : Memory) (address : UInt16) (value : UInt8) : Except Fault Memory :=
  if address.toNat < size then .ok (m.put address.toNat [value])
  else .error (.addressOutOfRange address.toNat)

/-- The word at an address, high byte first. -/
def word (m : Memory) (address : Nat) : UInt16 :=
  (m.byte address).toUInt16 <<< 8 ||| (m.byte (address + 1)).toUInt16

/-- The opcode at an address. -/
def fetch (m : Memory) (pc : UInt16) : Except Fault Opcode := do
  checkRange pc 2 (hasEnd_of_le pc (by omega))
  return ⟨m.word pc.toNat⟩

/-- Puts a program image where programs start, unless it is too large. What lies behind a shorter
image stays. -/
def load (m : Memory) (image : List UInt8) : Except Fault Memory :=
  if image.length ≤ imageCapacity then .ok (m.put programStart image)
  else .error (.imageTooLarge image.length)

/-- Puts the digit sprites into the reserved region. -/
def loadFont (m : Memory) : Memory :=
  m.put Font.base Font.sheet

/-! ## The view -/

@[simp] theorem byte_empty (a : Nat) : empty.byte a = 0 := by
  simp only [byte, empty, Vector.getElem?_replicate]
  split <;> rfl

theorem byte_of_size_le (m : Memory) {a : Nat} (h : size ≤ a) : m.byte a = 0 := by
  have : m.bytes[a]? = none := Vector.getElem?_eq_none (by simpa [size] using h)
  simp [byte, this]

/-- Memories with the same view are equal. -/
theorem ext_byte {m m' : Memory} (h : ∀ a, m.byte a = m'.byte a) : m = m' := by
  rcases m with ⟨v⟩
  rcases m' with ⟨v'⟩
  congr 1
  apply Vector.ext
  intro i hi
  have := h i
  simpa [byte, Vector.getElem?_eq_getElem hi] using this

theorem byte_put (m : Memory) (start : Nat) (data : List UInt8) (a : Nat) :
    (m.put start data).byte a =
      if start ≤ a ∧ a < start + data.length ∧ a < size then data[a - start]?.getD 0
      else m.byte a := by
  induction data generalizing m start with
  | nil => rw [put, if_neg (by simp only [List.length_nil]; omega)]
  | cons b rest ih =>
    rw [put, ih]
    simp only [List.length_cons]
    by_cases hs : a = start
    · subst hs
      by_cases hz : a < size
      · have h1 : ¬(a + 1 ≤ a ∧ a < a + 1 + rest.length ∧ a < size) := by omega
        have h2 : a ≤ a ∧ a < a + (rest.length + 1) ∧ a < size := by omega
        simp only [if_neg h1, if_pos h2]
        simp [byte, show a < 4096 from hz]
      · have h1 : ¬(a + 1 ≤ a ∧ a < a + 1 + rest.length ∧ a < size) := by omega
        have h2 : ¬(a ≤ a ∧ a < a + (rest.length + 1) ∧ a < size) := by omega
        simp only [if_neg h1, if_neg h2]
        rw [byte_of_size_le _ (by omega), byte_of_size_le _ (by omega)]
    · have hb : (Memory.mk (m.bytes.setIfInBounds start b)).byte a = m.byte a := by
        simp [byte, Ne.symm hs]
      by_cases hin : start + 1 ≤ a ∧ a < start + 1 + rest.length ∧ a < size
      · have h2 : start ≤ a ∧ a < start + (rest.length + 1) ∧ a < size := by omega
        obtain ⟨k, rfl⟩ : ∃ k, a = start + 1 + k := ⟨a - (start + 1), by omega⟩
        simp only [if_pos hin, if_pos h2]
        have e1 : start + 1 + k - (start + 1) = k := by omega
        have e2 : start + 1 + k - start = k + 1 := by omega
        simp [e1, e2]
      · have h2 : ¬(start ≤ a ∧ a < start + (rest.length + 1) ∧ a < size) := by omega
        simp only [if_neg hin, if_neg h2, hb]

/-! ## Ranges -/

/-- What a block operation comes to: a value if memory has the whole range. -/
theorem checkRange_bind {α : Type} {address : UInt16} {length : Nat} (h : HasEnd address length)
    (a : α) :
    (checkRange address length h >>= fun _ => .ok a) =
      if address.toNat + length ≤ size then .ok a
      else .error (.addressOutOfRange (max address.toNat size)) := by
  unfold checkRange
  split <;> rfl

theorem error_of_checkRange_bind {α : Type} {address : UInt16} {length : Nat}
    {hend : HasEnd address length} {a : α} {f : Fault}
    (h : (checkRange address length hend >>= fun _ => .ok a) = .error f) :
    f = .addressOutOfRange (max address.toNat size) := by
  rw [checkRange_bind] at h
  split at h
  · cases h
  · cases h
    rfl

theorem read_eq (m : Memory) (address : UInt16) (length : Nat) (h : HasEnd address length) :
    m.read address length h =
      if address.toNat + length ≤ size then
        .ok ((List.range length).map fun k => m.byte (address.toNat + k))
      else .error (.addressOutOfRange (max address.toNat size)) :=
  checkRange_bind h _

theorem write_eq (m : Memory) (address : UInt16) (data : List UInt8)
    (h : HasEnd address data.length) :
    m.write address data h =
      if address.toNat + data.length ≤ size then .ok (m.put address.toNat data)
      else .error (.addressOutOfRange (max address.toNat size)) :=
  checkRange_bind h _

theorem fetch_eq (m : Memory) (pc : UInt16) :
    m.fetch pc =
      if pc.toNat + 2 ≤ size then .ok ⟨m.word pc.toNat⟩
      else .error (.addressOutOfRange (max pc.toNat size)) :=
  checkRange_bind (hasEnd_of_le pc (by omega)) _

theorem fetch_eq_ok_iff {m : Memory} {pc : UInt16} {op : Opcode} :
    m.fetch pc = .ok op ↔ pc.toNat + 2 ≤ size ∧ op = ⟨m.word pc.toNat⟩ := by
  rw [fetch_eq]
  split
  · rename_i hpc
    simp only [Except.ok.injEq, hpc, true_and, eq_comm]
  · rename_i hpc
    simp [hpc]

theorem le_size_of_fetch {m : Memory} {pc : UInt16} {op : Opcode} (h : m.fetch pc = .ok op) :
    pc.toNat + 2 ≤ size :=
  (fetch_eq_ok_iff.mp h).1

end Memory
end ChipEight
