import ChipEight.Proofs.ProgramCounter

/-!
The region below the program. Memory keeps it for the interpreter, and nothing should be executed
there, but no cycle looks whether its opcode comes from there. What holds is that only a jump leads
there, a call and the jump by a register included. Up to the first one that does, the program
counter and the return addresses on the stack are at or above the start of the program
(`Machine.AboveReserved`): a return goes to one of them, and all else goes on from where it is.
-/
namespace ChipEight

/-- The address a cycle jumps to, if it executes a jump or a call and succeeds. -/
def Moment.target? : Moment → Option Nat
  | cycle start outcome _ =>
      if outcome.fault.isNone then start.due?.bind (Instruction.target? start) else none
  | answer .. => none

namespace Machine

/-! ## Jumps -/

theorem target?_nextCycle {m : Machine} {a : Nat} :
    m.nextCycle.target? = some a ↔
      m.step.fault = none ∧ ∃ i, m.due? = some i ∧ i.target? m = some a := by
  rw [nextCycle, Moment.target?]
  split <;> simp_all [Option.bind_eq_some_iff]

/-- Behind a jump into the reserved region, the next cycle executes what is stored there. -/
theorem step_of_target? {m : Machine} {a : Nat} (h : m.nextCycle.target? = some a)
    (ha : a < Memory.programStart) :
    m.step.machine.pc.toNat = a ∧
      m.step.machine.step = m.step.machine.execute ⟨m.step.machine.memory.word a⟩ := by
  obtain ⟨hok, i, hi, htarget⟩ := target?_nextCycle.mp h
  have hpc : m.step.machine.pc.toNat = a := by
    rw [pc_step_of_due? hi hok]
    exact Instruction.toNat_next_of_target? htarget
  have hawaiting : Part.awaiting.Same m m.step.machine := by
    refine m.step_same (fun j hj => ?_) (by decide)
    obtain rfl : i = j := Option.some.inj (hi.symm.trans hj)
    cases i <;> simp_all [Instruction.target?, Instruction.touches]
  have hwaiting : m.step.machine.isWaiting = false := by
    rw [isWaiting, hawaiting]
    exact (due?_eq_some_iff.mp hi).1
  have hinside : a + 2 ≤ Memory.size := by
    simp only [Memory.programStart, Memory.size] at ha ⊢
    omega
  refine ⟨hpc, step_of_ok hwaiting ?_⟩
  rw [Memory.fetch_eq, hpc, if_pos hinside]

/-! ## Before the first jump into the region -/

/-- The program counter and the return addresses on the stack are outside the reserved region. -/
structure AboveReserved (m : Machine) : Prop where
  pc : Memory.programStart ≤ m.pc.toNat
  -- Slots that no call has used yet hold zero.
  slots : ∀ k < m.calls.depth, Memory.programStart ≤ (m.calls.slot k).toNat

theorem aboveReserved_create (config : Config) (random : RandomBytes) :
    (create config random).AboveReserved :=
  ⟨by show 0x200 ≤ (0x200 : UInt16).toNat; decide, fun _ hk => absurd hk (Nat.not_lt_zero _)⟩

/-- A return that succeeds finds a return address. -/
theorem depth_ne_zero_of_leave {m : Machine} (hi : m.due? = some .leave)
    (hok : m.step.fault = none) : m.calls.depth ≠ 0 := by
  intro hdepth
  rw [step_of_due? hi, Instruction.execute, Outcome.fault_onSuccess] at hok
  simp [Instruction.effect, CallStack.pop?, hdepth] at hok

theorem AboveReserved.le_next {m : Machine} (h : m.AboveReserved) {i : Instruction}
    (hi : m.due? = some i) (hok : m.step.fault = none)
    (htarget : ∀ a, i.target? m = some a → Memory.programStart ≤ a) :
    Memory.programStart ≤ (i.next m).toNat := by
  have hpc := h.pc
  have hin : m.pc.toNat + 2 ≤ 0x1000 := pc_le_of_due? hi
  have hnext : (m.pc + 2).toNat = m.pc.toNat + 2 := toNat_pc_add (by omega) (by decide)
  have hskip : (m.pc + 4).toNat = m.pc.toNat + 4 := toNat_pc_add (by omega) (by decide)
  cases i.nextCase m with
  | jumps hjumps hnext =>
    rw [hnext]
    exact htarget _ hjumps
  | returns hleave htop =>
    subst hleave
    have hdepth := depth_ne_zero_of_leave hi hok
    rw [htop]
    exact h.slots _ (by omega)
  | passes hpassed =>
    rw [hpassed]
    omega
  | skips hskipped =>
    rw [hskipped]
    omega

/-- Every cycle stays outside the reserved region that does not jump into it. -/
theorem AboveReserved.step {m : Machine} (h : m.AboveReserved)
    (htarget : ∀ a, m.nextCycle.target? = some a → Memory.programStart ≤ a) :
    m.step.machine.AboveReserved := by
  constructor
  · obtain hkept | ⟨hin, hpassed | ⟨i, hi, hok, hmoved⟩⟩ := m.pc_step
    · rw [hkept]
      exact h.pc
    · have hnext : (m.pc + 2).toNat = m.pc.toNat + 2 := toNat_pc_add (by omega) (by decide)
      have hpc := h.pc
      rw [hpassed]
      omega
    · rw [hmoved]
      exact h.le_next hi hok fun a ha => htarget a (target?_nextCycle.mpr ⟨hok, i, hi, ha⟩)
  · intro k hk
    cases m.callsCase with
    | kept hkept =>
      rw [hkept] at hk ⊢
      exact h.slots k hk
    | called hi hpush =>
      have hpc := h.pc
      obtain ⟨-, hcalls⟩ := CallStack.push?_eq_some_iff.mp hpush
      rw [CallStack.slot_push? hpush]
      split
      · rw [toNat_pc_add_two hi]
        omega
      · rw [hcalls] at hk
        have hdepth : k < m.calls.depth + 1 := hk
        exact h.slots k (by omega)
    | left hi hpop =>
      obtain ⟨-, hcalls⟩ := CallStack.pop?_eq_some_iff.mp hpop
      rw [CallStack.slot_pop? hpop]
      rw [hcalls] at hk
      exact h.slots k (Nat.lt_of_lt_of_le hk (Nat.sub_le _ _))

theorem AboveReserved.act {m : Machine} (h : m.AboveReserved) {a : Act} (ha : a ≠ .cycle) :
    (m.act a).AboveReserved := by
  constructor
  · rw [m.pc_act_of_ne_cycle ha]
    exact h.pc
  · rw [m.calls_act_of_ne_cycle ha]
    exact h.slots

/-- **Only a jump into the reserved region gets a program there.** A cycle that finds the program
counter below the start of the program comes after one that jumped below it. And nothing holds such
a jump back: it leaves the program counter at its target, and the next cycle executes what is stored
there. -/
theorem reserved_entered_by_jump (config : Config) (random : RandomBytes)
    (requests : List Request) :
    (∀ past start outcome log rest,
      (create config random).history requests = past ++ .cycle start outcome log :: rest →
        start.pc.toNat < Memory.programStart →
          ∃ x ∈ past, ∃ a, x.target? = some a ∧ a < Memory.programStart) ∧
      ∀ start outcome log a, .cycle start outcome log ∈ (create config random).history requests →
        (Moment.cycle start outcome log).target? = some a → a < Memory.programStart →
          outcome.machine.pc.toNat = a ∧
            outcome.machine.step = outcome.machine.execute ⟨outcome.machine.memory.word a⟩ := by
  have hleads := Leads.history (create config random) requests
  constructor
  · intro past start outcome log rest hsplit hbelow
    rw [hsplit] at hleads
    obtain ⟨hpast, -⟩ := hleads.to_cycle
    -- If no earlier cycle jumps below the start, the invariant holds up to this one.
    by_contra hnone
    push Not at hnone
    have habove : start.AboveReserved :=
      hpast.invariant (fun ha h => h.act ha) (fun h htarget => h.step htarget)
        (aboveReserved_create config random) hnone
    exact absurd hbelow (Nat.not_lt.mpr habove.pc)
  · intro start outcome log a hmem htarget ha
    obtain ⟨past, rest, hsplit⟩ := List.append_of_mem hmem
    rw [hsplit] at hleads
    obtain ⟨-, rfl, rfl⟩ := hleads.to_cycle
    exact step_of_target? htarget ha

/-- A program that jumps into the digit sprites. The cycle behind the jump executes two rows of the
digit zero. -/
theorem reserved_entered_by_jump_to_digits :
    let loading := (create {} (.ofList [])).serve (.load [0x10, 0x52])
    let m := loading.machine
    (m.step.machine.pc.toNat = 0x52 ∧ m.step.machine.step = m.step.machine.execute ⟨0x9090⟩) ∧
      ∃ x ∈ [.answer (.load [0x10, 0x52]) loading, m.nextCycle],
        ∃ a, x.target? = some a ∧ a < Memory.programStart := by
  intro loading m
  have hrun : m.due? = some (.jump ⟨0x52, by decide⟩) ∧ m.step.fault = none ∧
      m.step.machine.memory.word 0x52 = 0x9090 ∧ m.step.machine.step.fault = none := by
    decide +kernel
  obtain ⟨hjump, hok, hword, hok'⟩ := hrun
  have htarget : m.nextCycle.target? = some 0x52 := target?_nextCycle.mpr ⟨hok, _, hjump, rfl⟩
  have hhistory : (create {} (.ofList [])).history [.load [0x10, 0x52], .step 2] =
      [.answer (.load [0x10, 0x52]) loading, m.nextCycle] ++
        m.step.machine.nextCycle :: [.answer (.step 2) (m.serve (.step 2))] := by
    show [.answer _ loading] ++ (m.cycles (fun _ => false) 2 ++ [.answer _ (m.serve _)]) = _
    simp [cycles, hok, hok']
  obtain ⟨hbelow, hexecuted⟩ :=
    reserved_entered_by_jump {} (.ofList []) [.load [0x10, 0x52], .step 2]
  rw [hhistory] at hexecuted
  obtain ⟨hpc, hstep⟩ := hexecuted m m.step m.stepLog 0x52 (by simp [nextCycle]) htarget (by decide)
  rw [hword] at hstep
  exact ⟨⟨hpc, hstep⟩, hbelow _ _ _ _ _ hhistory (by rw [hpc]; decide)⟩

/-- Two rows of the digit zero are a skip, which a cycle in the reserved region executes. -/
theorem reserved_region_is_executed :
    let m := (create {} (.ofList [])).after [.load [0x10, 0x52], .step 1]
    m.pc.toNat < Memory.programStart ∧ m.due? = some (.skip (.different 0 9)) ∧
      m.step.fault = none ∧ m.step.machine.pc = 0x54 := by
  decide +kernel

end Machine
end ChipEight
