import ChipEight.Proofs.Cycle

/-!
Footprints: the parts of a machine an instruction may change. `Instruction.touches` lists them, and
`Instruction.effect_same` says that every other part stays as it is, whether the effect succeeds or
not. `Machine.step_same` is the same for a whole cycle.
-/
namespace ChipEight

/-- The parts of a machine. -/
inductive Part where
  | config
  | registers
  | index
  | pc
  | calls
  | delay
  | sound
  | keys
  | awaiting
  | memory
  | display
  | random
  deriving DecidableEq

/-- Two machines agree in a part. -/
def Part.Same : Part → Machine → Machine → Prop
  | config, m, m' => m'.config = m.config
  | registers, m, m' => m'.registers = m.registers
  | index, m, m' => m'.index = m.index
  | pc, m, m' => m'.pc = m.pc
  | calls, m, m' => m'.calls = m.calls
  | delay, m, m' => m'.delay = m.delay
  | sound, m, m' => m'.sound = m.sound
  | keys, m, m' => m'.keys = m.keys
  | awaiting, m, m' => m'.awaiting = m.awaiting
  | memory, m, m' => m'.memory = m.memory
  | display, m, m' => m'.display = m.display
  | random, m, m' => m'.random = m.random

namespace Part.Same

theorem refl (part : Part) (m : Machine) : part.Same m m := by
  cases part <;> rfl

theorem trans {part : Part} {a b c : Machine} (hab : part.Same a b) (hbc : part.Same b c) :
    part.Same a c := by
  cases part <;> exact Eq.trans hbc hab

end Part.Same

/-! ## Instructions -/

namespace Instruction

/-- The parts an instruction may change, the program counter aside. -/
def touches : Instruction → List Part
  | clear => [.display]
  | leave | call _ => [.calls]
  | jump _ | jumpBy _ | skip _ => []
  | set .. | increase .. | combine .. | readDelay _ | restore _ => [.registers]
  | point _ | pointDigit _ => [.index]
  | random .. => [.registers, .random]
  | draw .. => [.registers, .display]
  | awaitKey _ => [.awaiting]
  | setDelay _ => [.delay]
  | setSound _ => [.sound]
  | advance _ => [.registers, .index]
  | storeDecimal _ | save _ => [.memory]

end Instruction

namespace Machine

theorem combine_eq (m : Machine) (how : Arithmetic) (x y : Register) :
    m.combine how x y = { m with registers := (m.combine how x y).registers } := by
  unfold combine
  cases how <;> rfl

theorem advanceIndex_eq (m : Machine) (x : Register) :
    m.advanceIndex x =
      { m with
        registers := (m.advanceIndex x).registers
        index := (m.advanceIndex x).index } := by
  cases h : m.config.overflow <;> simp [advanceIndex, h, setFlag, setRegister]

/-- The flag wins over the result where both go to one register. -/
theorem register_combine (m : Machine) (how : Arithmetic) (x y r : Register) :
    (m.combine how x y).register r =
      match how.flag? (m.register x) (m.register y) with
      | some on =>
          if r = flag then if on then 1 else 0
          else if r = x then how.value (m.register x) (m.register y) else m.register r
      | none => if r = x then how.value (m.register x) (m.register y) else m.register r := by
  rw [combine]
  cases how.flag? (m.register x) (m.register y) with
  | none => simp only [register_setRegister, eq_comm]
  | some on => simp only [register_setFlag, register_setRegister, eq_comm]

theorem index_advanceIndex (m : Machine) (x : Register) :
    (m.advanceIndex x).index = UInt16.ofNat (m.indexSum x) := by
  rw [advanceIndex]
  cases m.config.overflow <;> rfl

/-- The sum is compared before it is cut to sixteen bits. -/
theorem register_advanceIndex (m : Machine) (x r : Register) :
    (m.advanceIndex x).register r =
      if r = flag ∧ m.config.overflow = .setFlag then if 0xFFF < m.indexSum x then 1 else 0
      else m.register r := by
  rw [advanceIndex]
  cases m.config.overflow with
  | wrap =>
    rw [if_neg (by simp)]
    rfl
  | setFlag =>
    show (setFlag _ _).register r = _
    rw [register_setFlag]
    simp only [decide_eq_true_eq, and_true]
    rfl

end Machine

/-- A check that leads only to machines with a part unchanged leaves that part unchanged. -/
theorem Outcome.check_same {α : Type} {m : Machine} {part : Part} {found : Except Fault α}
    {go : α → Outcome} (h : ∀ a, part.Same m (go a).machine) :
    part.Same m (Outcome.check m found go).machine := by
  cases found with
  | ok a => exact h a
  | error f => exact .refl part m

namespace Instruction

theorem effect_same (i : Instruction) (m : Machine) {part : Part} (h : part ∉ i.touches) :
    part.Same m (i.effect m).machine := by
  cases i with
  | jump | jumpBy | skip => exact .refl part m
  | clear | point | awaitKey | setDelay | setSound | pointDigit =>
    cases part <;> simp [touches] at h <;> simp [Part.Same, effect]
  | set | increase | readDelay | random =>
    cases part <;> simp [touches] at h <;> simp [Part.Same, effect, Machine.setRegister]
  | leave =>
    simp only [effect]
    split
    · cases part <;> simp [touches] at h <;> simp [Part.Same]
    · exact .refl part m
  | call target =>
    simp only [effect]
    split
    · cases part <;> simp [touches] at h <;> simp [Part.Same]
    · exact .refl part m
  | combine how x y =>
    simp only [effect, Outcome.machine_success]
    rw [m.combine_eq]
    cases part <;> simp [touches] at h <;> simp [Part.Same]
  | advance x =>
    simp only [effect, Outcome.machine_success]
    rw [m.advanceIndex_eq]
    cases part <;> simp [touches] at h <;> simp [Part.Same]
  | draw x y rows =>
    refine Outcome.check_same fun sprite => Outcome.check_same fun points => ?_
    cases part <;> simp [touches] at h <;>
      simp [Part.Same, Machine.drawPoints, Machine.setFlag, Machine.setRegister]
  | storeDecimal x =>
    refine Outcome.check_same fun memory => ?_
    cases part <;> simp [touches] at h <;> simp [Part.Same, Machine.withMemory]
  | save last =>
    refine Outcome.check_same fun memory => ?_
    cases part <;> simp [touches] at h <;> simp [Part.Same, Machine.withMemory]
  | restore last =>
    refine Outcome.check_same fun values => ?_
    cases part <;> simp [touches] at h <;> simp [Part.Same, Machine.setRegisters]

theorem execute_same (i : Instruction) (m : Machine) {part : Part} (h : part ∉ i.touches)
    (hpc : part ≠ .pc) : part.Same m (i.execute m).machine := by
  have he := effect_same i m h
  cases hf : (i.effect m).fault with
  | some f => simpa [execute, Outcome.onSuccess_of_some hf] using he
  | none =>
    simp only [execute, Outcome.onSuccess_of_none hf, Outcome.machine_success]
    refine he.trans ?_
    cases part <;> first | exact absurd rfl hpc | rfl

theorem config_not_mem_touches (i : Instruction) : .config ∉ i.touches := by
  cases i <;> simp [touches]

theorem config_execute (i : Instruction) (m : Machine) : (i.execute m).machine.config = m.config :=
  i.execute_same m i.config_not_mem_touches (by decide)

end Instruction

/-! ## Cycles -/

namespace Machine

/-- A cycle changes only what the instruction that is due touches, and the program counter. -/
theorem step_same (m : Machine) {part : Part} (h : ∀ i, m.due? = some i → part ∉ i.touches)
    (hpc : part ≠ .pc) : part.Same m m.step.machine := by
  cases m.stepCase with
  | waiting hw hs | unfetched hw hf hs | refused hw hf hd hp hs =>
    rw [hs]
    exact .refl part m
  | leftOut hw hf hd hp hs =>
    rw [hs]
    cases part <;> first | exact absurd rfl hpc | rfl
  | executed hi hs =>
    rw [hs]
    exact Instruction.execute_same _ m (h _ hi) hpc

end Machine
end ChipEight
