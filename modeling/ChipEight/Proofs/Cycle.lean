import ChipEight.Machine.Cycle

/-!
What a cycle can come to. `Machine.due?` is the instruction the next cycle executes, and
`Machine.stepCase` lists the five ways a cycle can go, each with its outcome. Everything that is
said about cycles starts from these cases; none of them is found again by unfolding `Machine.step`.
-/
namespace ChipEight

/-! ## Outcomes -/

namespace Outcome

@[simp] theorem machine_success (m : Machine) : (success m).machine = m := rfl

@[simp] theorem fault_success (m : Machine) : (success m).fault = none := rfl

@[simp] theorem machine_failure (m : Machine) (f : Fault) : (failure m f).machine = m := rfl

@[simp] theorem fault_failure (m : Machine) (f : Fault) : (failure m f).fault = some f := rfl

@[simp] theorem check_ok {α : Type} (m : Machine) (a : α) (go : α → Outcome) :
    check m (.ok a) go = go a := rfl

@[simp] theorem check_error {α : Type} (m : Machine) (f : Fault) (go : α → Outcome) :
    check m (.error f) go = failure m f := rfl

@[simp] theorem fault_onSuccess (o : Outcome) (f : Machine → Machine) :
    (o.onSuccess f).fault = o.fault := by
  rcases o with ⟨m, _ | fault⟩ <;> rfl

theorem onSuccess_of_none {o : Outcome} (h : o.fault = none) (f : Machine → Machine) :
    o.onSuccess f = success (f o.machine) := by
  rcases o with ⟨m, fault⟩
  cases h
  rfl

theorem onSuccess_of_some {o : Outcome} {fault : Fault} (h : o.fault = some fault)
    (f : Machine → Machine) : o.onSuccess f = o := by
  rcases o with ⟨m, fault⟩
  cases h
  rfl

end Outcome

/-! ## Instructions -/

namespace Instruction

theorem execute_of_success {i : Instruction} {m m' : Machine} (h : i.effect m = .success m') :
    i.execute m = .success { m' with pc := i.next m } := by
  simp only [execute, h]
  exact Outcome.onSuccess_of_none rfl _

theorem execute_of_failure {i : Instruction} {m m' : Machine} {f : Fault}
    (h : i.effect m = .failure m' f) : i.execute m = .failure m' f := by
  simp only [execute, h]
  exact Outcome.onSuccess_of_some rfl _

end Instruction

/-! ## Cycles -/

namespace Machine

/-- The instruction the next cycle executes, if it comes to one. -/
def due? (m : Machine) : Option Instruction :=
  if m.isWaiting then none
  else
    match m.memory.fetch m.pc with
    | .ok op => Instruction.decode? op
    | .error _ => none

/-- The ways a cycle can go. -/
inductive StepCase (m : Machine) : Prop where
  /-- The machine waits for a key. -/
  | waiting (hw : m.isWaiting = true) (hs : m.step = .success m)
  /-- There is no opcode at the program counter. -/
  | unfetched {f : Fault} (hw : m.isWaiting = false) (hf : m.memory.fetch m.pc = .error f)
      (hs : m.step = .failure m f)
  /-- The opcode stands for no instruction and is left out. -/
  | leftOut {op : Opcode} (hw : m.isWaiting = false) (hf : m.memory.fetch m.pc = .ok op)
      (hd : Instruction.decode? op = none) (hp : m.config.unknown = .skip)
      (hs : m.step = .success { m with pc := m.pc + 2 })
  /-- The opcode stands for no instruction and is refused. -/
  | refused {op : Opcode} (hw : m.isWaiting = false) (hf : m.memory.fetch m.pc = .ok op)
      (hd : Instruction.decode? op = none) (hp : m.config.unknown = .fail)
      (hs : m.step = .failure m (.unknownOpcode op m.pc))
  /-- An instruction is executed. -/
  | executed {i : Instruction} (hi : m.due? = some i) (hs : m.step = i.execute m)

/-! ## The branches of a cycle -/

theorem step_of_isWaiting {m : Machine} (h : m.isWaiting = true) : m.step = .success m := by
  simp [step, h]

theorem step_of_error {m : Machine} {f : Fault} (hw : m.isWaiting = false)
    (hf : m.memory.fetch m.pc = .error f) : m.step = .failure m f := by
  simp [step, hw, hf]

theorem step_of_ok {m : Machine} {op : Opcode} (hw : m.isWaiting = false)
    (hf : m.memory.fetch m.pc = .ok op) : m.step = m.execute op := by
  simp [step, hw, hf]

theorem execute_of_skip {m : Machine} {op : Opcode} (hd : Instruction.decode? op = none)
    (hp : m.config.unknown = .skip) : m.execute op = .success { m with pc := m.pc + 2 } := by
  simp [execute, hd, hp]

theorem execute_of_fail {m : Machine} {op : Opcode} (hd : Instruction.decode? op = none)
    (hp : m.config.unknown = .fail) : m.execute op = .failure m (.unknownOpcode op m.pc) := by
  simp [execute, hd, hp]

theorem stepCase (m : Machine) : StepCase m := by
  cases hw : m.isWaiting with
  | true => exact .waiting hw (step_of_isWaiting hw)
  | false =>
    cases hf : m.memory.fetch m.pc with
    | error f => exact .unfetched hw hf (step_of_error hw hf)
    | ok op =>
      have hs := step_of_ok hw hf
      cases hd : Instruction.decode? op with
      | some i => exact .executed (i := i) (by simp [due?, hw, hf, hd]) (by simp [hs, execute, hd])
      | none =>
        cases hp : m.config.unknown with
        | skip => exact .leftOut hw hf hd hp (hs.trans (execute_of_skip hd hp))
        | fail => exact .refused hw hf hd hp (hs.trans (execute_of_fail hd hp))

theorem due?_eq_some_iff {m : Machine} {i : Instruction} :
    m.due? = some i ↔ m.isWaiting = false ∧
      ∃ op, m.memory.fetch m.pc = .ok op ∧ Instruction.decode? op = some i := by
  cases hw : m.isWaiting with
  | true => simp [due?, hw]
  | false => cases hf : m.memory.fetch m.pc <;> simp [due?, hw, hf]

theorem step_of_due? {m : Machine} {i : Instruction} (h : m.due? = some i) :
    m.step = i.execute m := by
  obtain ⟨hw, op, hf, hd⟩ := due?_eq_some_iff.mp h
  simp [step, hw, hf, execute, hd]

/-- A cycle logs the opcode that it fetches, and whether the opcode is left out. -/
theorem exists_of_mem_stepLog {m : Machine} {e : Log.Entry} (h : e ∈ m.stepLog) :
    ∃ op, e = .cycle op m.registers m.index m.pc ∨ e = .leftOut op m.pc := by
  rw [stepLog] at h
  split at h
  · cases h
  · cases hf : m.memory.fetch m.pc with
    | error f =>
      rw [hf] at h
      cases h
    | ok op =>
      rw [hf, List.mem_cons] at h
      rcases h with h | h
      · exact ⟨op, .inl h⟩
      · rw [executeLog] at h
        split at h
        · exact ⟨op, .inr (List.mem_singleton.mp h)⟩
        · cases h

/-- An instruction is fetched from where memory has all of it. -/
theorem pc_le_of_due? {m : Machine} {i : Instruction} (h : m.due? = some i) :
    m.pc.toNat + 2 ≤ Memory.size := by
  obtain ⟨-, op, hf, -⟩ := due?_eq_some_iff.mp h
  exact Memory.le_size_of_fetch hf

theorem toNat_pc_add_two {m : Machine} {i : Instruction} (h : m.due? = some i) :
    (m.pc + 2).toNat = m.pc.toNat + 2 := by
  have hle : m.pc.toNat + 2 ≤ 4096 := pc_le_of_due? h
  rw [UInt16.toNat_add]
  exact Nat.mod_eq_of_lt (by simp only [UInt16.reduceToNat]; omega)

end Machine
end ChipEight
