import ChipEight.Machine.Request
import ChipEight.Proofs.Footprint

/-!
Acts: the smallest things that can happen to a machine, one cycle or one deed of its host. An act is
a request that cannot be divided, so a list of acts passes through every state a machine is in on
its way, and an invariant of acts is an invariant of everything a host can ask for.
-/
namespace ChipEight

/-- A cycle, or one thing a host does to a machine. -/
inductive Act where
  | cycle
  | load (image : List UInt8)
  | loadFrom (stream : List Chunk)
  | press (key : UInt8)
  | release (key : UInt8)
  | tick
  | setDelay (value : UInt8)
  | tickDelay
  | acknowledge
  deriving DecidableEq

namespace Act

/-- The request that asks for an act. -/
def request : Act → Request
  | cycle => .step 1
  | load image => .load image
  | loadFrom stream => .loadFrom stream
  | press key => .press key
  | release key => .release key
  | tick => .tick 1
  | setDelay value => .setDelay value
  | tickDelay => .tickDelay 1
  | acknowledge => .acknowledge

end Act

theorem Answer.machine_ofOutcome (o : Outcome) (log : List Log.Entry) :
    (ofOutcome o log).machine = o.machine := by
  unfold ofOutcome
  split <;> rfl

namespace Machine

/-- The machine after an act. -/
def act (m : Machine) (a : Act) : Machine :=
  (m.serve a.request).machine

/-- The machine after a list of acts. -/
def perform (m : Machine) (acts : List Act) : Machine :=
  m.after (acts.map Act.request)

@[simp] theorem perform_cons (m : Machine) (a : Act) (acts : List Act) :
    m.perform (a :: acts) = (m.act a).perform acts := rfl

theorem act_cycle (m : Machine) : m.act .cycle = m.step.machine := by
  simp only [act, Act.request, serve, steps, Run.cyclesUntil, ite_self]
  rfl

theorem act_load (m : Machine) (image : List UInt8) :
    m.act (.load image) = (m.load image).machine :=
  Answer.machine_ofOutcome _ _

theorem act_loadFrom (m : Machine) (stream : List Chunk) :
    m.act (.loadFrom stream) = (m.loadFrom stream).machine :=
  Answer.machine_ofOutcome _ _

/-! ## Keys -/

theorem press_of_not_key {m : Machine} {key : UInt8} (hkey : ¬ key.toNat < 16) :
    m.press key = m := by
  rw [press, dif_neg hkey]

theorem press_of_awaiting_none {m : Machine} (h : m.awaiting = none) {key : UInt8}
    (hkey : key.toNat < 16) : m.press key = { m with keys := m.keys.set key.toNat true } := by
  rw [press, dif_pos hkey]
  simp only [h]

/-- A key that goes down releases a machine that waits for one. -/
theorem press_of_awaiting {m : Machine} {x : Register} (h : m.awaiting = some x) {key : UInt8}
    (hkey : key.toNat < 16) :
    m.press key =
      { m.setRegister x key with keys := m.keys.set key.toNat true, awaiting := none } := by
  rw [press, dif_pos hkey]
  simp only [h]
  rfl

/-! ## Footprints -/

theorem press_eq (m : Machine) (key : UInt8) :
    m.press key =
      { m with
        registers := (m.press key).registers
        keys := (m.press key).keys
        awaiting := (m.press key).awaiting } := by
  unfold press
  split
  · cases m.awaiting <;> simp [setRegister]
  · rfl

theorem release_eq (m : Machine) (key : UInt8) :
    m.release key = { m with keys := (m.release key).keys } := by
  unfold release
  split <;> rfl

theorem ticks_eq (m : Machine) (times : Nat) :
    ticks times m =
      { m with delay := m.delay.ticks times, sound := m.sound.ticks times } := by
  induction times generalizing m with
  | zero => rfl
  | succ times ih =>
    rw [ticks, ih]
    rfl

end Machine

/-- The parts an act may change. -/
def Act.touches (m : Machine) : Act → List Part
  | cycle => .pc :: (m.due?.map Instruction.touches).getD []
  | load _ | loadFrom _ => [.memory]
  | press _ => [.registers, .keys, .awaiting]
  | release _ => [.keys]
  | tick => [.delay, .sound]
  | setDelay _ | tickDelay => [.delay]
  | acknowledge => [.display]

/-- A cycle leaves alone what every instruction does, the program counter aside. -/
theorem Act.not_mem_touches_cycle {part : Part} (hpc : part ≠ .pc)
    (h : ∀ i : Instruction, part ∉ i.touches) (m : Machine) : part ∉ cycle.touches m := by
  cases hdue : m.due? with
  | none => simp [touches, hdue, hpc]
  | some i => simp [touches, hdue, hpc, h i]

namespace Machine

theorem act_same (m : Machine) (a : Act) {part : Part} (h : part ∉ a.touches m) :
    part.Same m (m.act a) := by
  cases a with
  | cycle =>
    simp only [Act.touches, List.mem_cons, not_or] at h
    rw [m.act_cycle]
    refine m.step_same (fun i hi => ?_) h.1
    simpa [hi] using h.2
  | load image =>
    rw [m.act_load]
    refine Outcome.check_same fun memory => ?_
    cases part <;> simp [Act.touches] at h <;> simp [Part.Same, withMemory]
  | loadFrom stream =>
    rw [m.act_loadFrom]
    refine Outcome.check_same fun memory => ?_
    cases part <;> simp [Act.touches] at h <;> simp [Part.Same, withMemory]
  | press key =>
    change part.Same m (m.press key)
    rw [m.press_eq]
    cases part <;> simp [Act.touches] at h <;> simp [Part.Same]
  | release key =>
    change part.Same m (m.release key)
    rw [m.release_eq]
    cases part <;> simp [Act.touches] at h <;> simp [Part.Same]
  | tick | setDelay | tickDelay | acknowledge =>
    cases part <;> simp [Act.touches] at h <;> rfl

end Machine
end ChipEight
