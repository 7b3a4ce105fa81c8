import ChipEight.Proofs.Cycle
import ChipEight.Proofs.Placement

/-!
Faults change nothing. An effect makes its checks one after the other: the range of a block, the
room on the call stack, the place of each lit sprite cell. `Outcome.FailsCleanly` says that
whichever of them fails, the machine is the one before the effect, down to the position in the
random bytes, and that the fault is one a cycle can meet. Each way to build an outcome keeps this,
so every instruction, every opcode and every cycle does.
-/
namespace ChipEight

/-- The faults a cycle of a machine can meet. One that names a place in the program names the
machine's program counter, one that names an address or a point names one that does not exist. -/
inductive Fault.OfCycle (m : Machine) : Fault → Prop where
  | address {a : Nat} (h : Memory.size ≤ a) : OfCycle m (.addressOutOfRange a)
  | overflow : OfCycle m (.stackOverflow m.pc)
  | underflow : OfCycle m (.stackUnderflow m.pc)
  | unknown (op : Opcode) : OfCycle m (.unknownOpcode op m.pc)
  | sprite {x y : Nat} (h : Frame.width ≤ x ∨ Frame.height ≤ y) :
      OfCycle m (.spriteOutOfBounds x y)

/-- A range that memory does not have is missing an address at or beyond the end. -/
theorem Fault.OfCycle.range {α : Type} (m : Machine) {address : UInt16} {length : Nat}
    {hend : Memory.HasEnd address length} {a : α} {f : Fault}
    (h : (Memory.checkRange address length hend >>= fun _ => .ok a) = .error f) : f.OfCycle m := by
  rw [Memory.error_of_checkRange_bind h]
  exact .address (Nat.le_max_right _ _)

/-- Only a cell outside the display is refused. -/
theorem EdgePolicy.ofCycle_of_placeAll {policy : EdgePolicy} {x y : Nat}
    {cells : List (Nat × Nat)} {f : Fault} (m : Machine)
    (h : policy.placeAll x y cells = .error f) : f.OfCycle m := by
  obtain ⟨cell, -, hrefuses, rfl⟩ := of_placeAll_error h
  exact .sprite (outside_of_refuses hrefuses)

/-! ## Outcomes that fail cleanly -/

namespace Outcome

/-- If the attempt failed, it left the machine as it was, with a fault a cycle can meet. -/
def FailsCleanly (m : Machine) (o : Outcome) : Prop :=
  ∀ f, o.fault = some f → o.machine = m ∧ f.OfCycle m

namespace FailsCleanly

theorem success (m m' : Machine) : FailsCleanly m (.success m') := by
  intro f h
  cases h

theorem failure {m : Machine} {f : Fault} (hf : f.OfCycle m) : FailsCleanly m (.failure m f) := by
  intro f' h
  cases h
  exact ⟨rfl, hf⟩

/-- A check in front keeps it: if the check fails, nothing has been done yet. -/
theorem check {α : Type} {m : Machine} {found : Except Fault α} {go : α → Outcome}
    (herr : ∀ f, found = .error f → f.OfCycle m) (hgo : ∀ a, FailsCleanly m (go a)) :
    FailsCleanly m (.check m found go) := by
  cases found with
  | ok a => exact hgo a
  | error f => exact failure (herr f rfl)

theorem store {m : Machine} {written : Except Fault Memory}
    (herr : ∀ f, written = .error f → f.OfCycle m) : FailsCleanly m (m.store written) :=
  check herr fun memory => success m (m.withMemory memory)

theorem onSuccess {m : Machine} {o : Outcome} (h : FailsCleanly m o) (g : Machine → Machine) :
    FailsCleanly m (o.onSuccess g) := by
  intro f hf
  rw [fault_onSuccess] at hf
  rw [onSuccess_of_some hf]
  exact h f hf

end FailsCleanly
end Outcome

/-! ## Instructions, opcodes and cycles -/

open Outcome (FailsCleanly)

theorem Instruction.effect_failsCleanly (i : Instruction) (m : Machine) :
    FailsCleanly m (i.effect m) := by
  cases i with
  | leave =>
    simp only [effect]
    split
    · exact .success m _
    · exact .failure .underflow
  | call target =>
    simp only [effect]
    split
    · exact .success m _
    · exact .failure .overflow
  | draw x y rows =>
    refine .check (fun f hf => ?_) fun sprite => .check (fun f hf => ?_) fun points => .success m _
    · exact .range m hf
    · exact EdgePolicy.ofCycle_of_placeAll m hf
  | storeDecimal x => exact .store fun f hf => .range m hf
  | save last => exact .store fun f hf => .range m hf
  | restore last => exact .check (fun f hf => .range m hf) fun values => .success m _
  | _ => exact .success m _

theorem Machine.execute_failsCleanly (m : Machine) (op : Opcode) :
    FailsCleanly m (m.execute op) := by
  unfold Machine.execute
  cases Instruction.decode? op with
  | some i => exact (i.effect_failsCleanly m).onSuccess _
  | none =>
    cases m.config.unknown with
    | skip => exact .success m _
    | fail => exact .failure (.unknown op)

theorem Machine.step_failsCleanly (m : Machine) : FailsCleanly m m.step := by
  unfold Machine.step
  split
  · exact .success m m
  · exact .check (fun f hf => .range m hf) m.execute_failsCleanly

/-- **Failed operations are atomic**: an opcode that fails, and a cycle that fails, leave every part
of the machine as it was. -/
theorem fault_changes_nothing (m : Machine) :
    (∀ op f, (m.execute op).fault = some f → (m.execute op).machine = m ∧ f.OfCycle m) ∧
      ∀ f, m.step.fault = some f → m.step.machine = m ∧ f.OfCycle m :=
  ⟨m.execute_failsCleanly, m.step_failsCleanly⟩

/-- A digit drawn at the right edge: two of its cells have found their place when the third is
refused. And a cycle at the last address, where memory has only half an opcode. -/
theorem fault_changes_nothing_at_edge :
    let m : Machine :=
      { Machine.create { edges := .fault } (.ofList [7]) with
        registers := (Vector.replicate 16 0).set 0 62
        index := 0x050 }
    let n : Machine := { m with pc := 0x0FFF }
    ((m.execute ⟨0xD015⟩).fault = some (.spriteOutOfBounds 64 0) ∧ (m.execute ⟨0xD015⟩).machine = m) ∧
      n.step.fault = some (.addressOutOfRange 0x1000) ∧ n.step.machine = n := by
  intro m n
  have hm : (m.execute ⟨0xD015⟩).fault = some (.spriteOutOfBounds 64 0) := by decide +kernel
  have hn : n.step.fault = some (.addressOutOfRange 0x1000) := by decide +kernel
  exact ⟨⟨hm, ((fault_changes_nothing m).1 _ _ hm).1⟩, hn, ((fault_changes_nothing n).2 _ hn).1⟩

end ChipEight
