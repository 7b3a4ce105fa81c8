/-!
The call stack: sixteen slots for return addresses and the number of slots in use. A slot that is
given up keeps its word until the next call overwrites it.
-/
namespace ChipEight

/-- Sixteen slots, of which the first `depth` are in use. -/
structure CallStack where
  slots : Vector UInt16 16
  depth : Nat
  deriving DecidableEq

namespace CallStack

/-- The number of slots. -/
def capacity : Nat := 16

/-- No slot in use, and no word in any. -/
def empty : CallStack :=
  ⟨Vector.replicate 16 0, 0⟩

/-- The word a slot holds; zero for a slot that does not exist. -/
def slot (s : CallStack) (k : Nat) : UInt16 :=
  s.slots[k]?.getD 0

/-- The word in the last slot in use. -/
def top (s : CallStack) : UInt16 :=
  s.slot (s.depth - 1)

/-- Takes the next slot into use, if there is one left. -/
def push? (s : CallStack) (word : UInt16) : Option CallStack :=
  if s.depth < capacity then some ⟨s.slots.setIfInBounds s.depth word, s.depth + 1⟩ else none

/-- Gives up the last slot in use, if there is one. -/
def pop? (s : CallStack) : Option CallStack :=
  if s.depth = 0 then none else some { s with depth := s.depth - 1 }

@[simp] theorem slot_empty (k : Nat) : empty.slot k = 0 := by
  simp only [slot, empty, Vector.getElem?_replicate]
  split <;> rfl

theorem push?_eq_some_iff {s t : CallStack} {word : UInt16} :
    s.push? word = some t ↔
      s.depth < capacity ∧ t = ⟨s.slots.setIfInBounds s.depth word, s.depth + 1⟩ := by
  by_cases h : s.depth < capacity <;> simp [push?, h, eq_comm]

theorem pop?_eq_some_iff {s t : CallStack} :
    s.pop? = some t ↔ s.depth ≠ 0 ∧ t = { s with depth := s.depth - 1 } := by
  by_cases h : s.depth = 0 <;> simp [pop?, h, eq_comm]

/-- A call writes the slot it takes into use and no other. -/
theorem slot_push? {s t : CallStack} {word : UInt16} (h : s.push? word = some t) (k : Nat) :
    t.slot k = if k = s.depth then word else s.slot k := by
  obtain ⟨hd, rfl⟩ := push?_eq_some_iff.mp h
  simp only [capacity] at hd
  by_cases hk : k = s.depth
  · subst hk
    simp [slot, hd]
  · simp [slot, hk, Ne.symm hk]

/-- A return writes no slot. -/
theorem slot_pop? {s t : CallStack} (h : s.pop? = some t) (k : Nat) : t.slot k = s.slot k := by
  obtain ⟨-, rfl⟩ := pop?_eq_some_iff.mp h
  rfl

end CallStack
end ChipEight
