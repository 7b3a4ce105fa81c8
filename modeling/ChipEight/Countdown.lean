/-!
Countdowns: eight-bit timers that are set to a value and then fall by one at each tick, down to
zero. A `TimerBank` is a growing list of handles on countdowns, some of which share one.
-/
namespace ChipEight

/-- A timer that falls to zero. -/
structure Countdown where
  value : UInt8
  deriving DecidableEq

namespace Countdown

/-- Falls by one, or stays at zero. -/
def tick (c : Countdown) : Countdown :=
  if c.value = 0 then c else ⟨c.value - 1⟩

/-- Ticks a number of times. -/
def ticks : Nat → Countdown → Countdown
  | 0, c => c
  | times + 1, c => ticks times c.tick

theorem toNat_tick (c : Countdown) : c.tick.value.toNat = c.value.toNat - 1 := by
  unfold tick
  split
  · rename_i h
    simp [h]
  · rename_i h
    have : 1 ≤ c.value := by
      rw [UInt8.le_iff_toNat_le]
      have : c.value.toNat ≠ 0 := fun hz => h (UInt8.toNat_inj.mp (by simpa using hz))
      simpa using Nat.one_le_iff_ne_zero.mpr this
    simpa using UInt8.toNat_sub_of_le c.value 1 this

theorem toNat_ticks (times : Nat) (c : Countdown) :
    (ticks times c).value.toNat = c.value.toNat - times := by
  induction times generalizing c with
  | zero => rfl
  | succ times ih =>
    rw [ticks, ih, toNat_tick]
    omega

end Countdown

/-- Handles on countdowns. A handle names one of the countdowns; handles that name the same one
share it. -/
structure TimerBank where
  countdowns : List Countdown
  handles : List Nat
  deriving DecidableEq

/-- What can be done with the handles of a bank. -/
inductive TimerBank.Operation where
  /-- Add a handle that shares the countdown of an earlier one. -/
  | clone (handle : Nat)
  /-- Add a handle on a countdown of its own. -/
  | fresh
  | set (handle : Nat) (value : UInt8)
  | tick (handle times : Nat)
  deriving DecidableEq

namespace TimerBank

/-- One handle, on a countdown at zero. -/
def single : TimerBank :=
  ⟨[⟨0⟩], [0]⟩

/-- The countdown a handle names, zero for a handle that does not exist. -/
def countdown (b : TimerBank) (handle : Nat) : Countdown :=
  (b.handles[handle]?.bind fun k => b.countdowns[k]?).getD ⟨0⟩

/-- Changes the countdown that a handle names. -/
def update (b : TimerBank) (handle : Nat) (f : Countdown → Countdown) : TimerBank :=
  match b.handles[handle]? with
  | some k => { b with countdowns := b.countdowns.modify k f }
  | none => b

/-- Carries out one operation. Operations on a handle that does not exist do nothing. -/
def apply (b : TimerBank) : Operation → TimerBank
  | .clone handle =>
      match b.handles[handle]? with
      | some k => { b with handles := b.handles ++ [k] }
      | none => b
  | .fresh =>
      { countdowns := b.countdowns ++ [⟨0⟩], handles := b.handles ++ [b.countdowns.length] }
  | .set handle value => b.update handle fun _ => ⟨value⟩
  | .tick handle times => b.update handle (Countdown.ticks times)

/-- What all handles read, in order. -/
def values (b : TimerBank) : List UInt8 :=
  (List.range b.handles.length).map fun handle => (b.countdown handle).value

/-- What all handles read after each of a list of operations. -/
def history (b : TimerBank) : List Operation → List (List UInt8)
  | [] => []
  | op :: rest => (b.apply op).values :: (b.apply op).history rest

end TimerBank
end ChipEight
