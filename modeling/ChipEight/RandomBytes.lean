/-!
Random bytes: a fixed list that is drawn from front to back. Once it is used up every draw gives
zero.
-/
namespace ChipEight

/-- A list of bytes and how many of them have been drawn. -/
structure RandomBytes where
  bytes : Array UInt8
  drawn : Nat
  deriving DecidableEq

namespace RandomBytes

/-- Nothing drawn yet. -/
def ofList (bytes : List UInt8) : RandomBytes :=
  ⟨bytes.toArray, 0⟩

/-- The byte at a place of the list, zero behind its end. -/
def byte (r : RandomBytes) (k : Nat) : UInt8 :=
  r.bytes[k]?.getD 0

/-- The byte the next draw gives. -/
def next (r : RandomBytes) : UInt8 :=
  r.byte r.drawn

/-- What is left after a draw. -/
def advance (r : RandomBytes) : RandomBytes :=
  { r with drawn := r.drawn + 1 }

end RandomBytes
end ChipEight
