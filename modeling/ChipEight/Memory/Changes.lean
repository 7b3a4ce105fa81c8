import ChipEight.Memory.Basic

/-!
The difference between two memories, as the runs of addresses whose bytes differ.
-/
namespace ChipEight.Memory

/-- A run of neighbouring addresses and the bytes they hold. -/
structure Run where
  start : Nat
  bytes : List UInt8
  deriving DecidableEq

/-- Puts a byte in front of the runs that begin behind it: it joins the first of them if they
touch. -/
def Run.prepend (address : Nat) (b : UInt8) : List Run → List Run
  | run :: rest =>
      if run.start = address + 1 then ⟨address, b :: run.bytes⟩ :: rest
      else ⟨address, [b]⟩ :: run :: rest
  | [] => [⟨address, [b]⟩]

/-- The longest runs of addresses at which `after` differs from `before`, in ascending order, with
the bytes of `after`. -/
def changes (before after : Memory) : List Run :=
  (List.range size).foldr
    (fun a runs =>
      if before.byte a = after.byte a then runs else Run.prepend a (after.byte a) runs) []

end ChipEight.Memory
