import ChipEight.Proofs.History
import ChipEight.Proofs.Subroutines

/-!
How far a program gets. An opcode is fetched from memory as a whole, so the address behind it is at
most the end of memory, and no call puts a greater one on the stack. Only the jump by a register
can get further. `Machine.Contained` says so of a machine: every cycle keeps it, and no deed of a
host moves the program counter or writes to the stack. Where the program counter has left memory it
stays, since from there every cycle waits for a key or fails (`Machine.step_of_outside`).
-/
namespace ChipEight

namespace Machine

/-- The program counter is at most where a jump by a register gets, and no slot of the call stack
holds an address behind the end of memory, those that are not in use included. -/
structure Contained (m : Machine) : Prop where
  pc : m.pc.toNat ≤ 0x10FE
  slots : ∀ k, (m.calls.slot k).toNat ≤ 0x1000

/-! ## Addresses that do not wrap around -/

theorem toNat_pc_add {m : Machine} (h : m.pc.toNat ≤ 0x10FE) {k : UInt16} (hk : k.toNat ≤ 4) :
    (m.pc + k).toNat = m.pc.toNat + k.toNat := by
  rw [UInt16.toNat_add]
  exact Nat.mod_eq_of_lt (by omega)

theorem toNat_ofAddress (a : Address) : (UInt16.ofNat a.val).toNat = a.val := by
  have := a.isLt
  rw [UInt16.toNat_ofNat']
  exact Nat.mod_eq_of_lt (by omega)

theorem pc_le_of_fetch {m : Machine} {op : Opcode} (h : m.memory.fetch m.pc = .ok op) :
    m.pc.toNat ≤ 0xFFE :=
  Nat.le_of_add_le_add_right (b := 2) (Memory.le_size_of_fetch h)

end Machine

/-! ## Where an instruction leads -/

namespace Instruction

/-- The address an instruction jumps to, if it is a jump or a call. -/
def target? (m : Machine) (i : Instruction) : Option Nat :=
  match i with
  | jump _ | call _ | jumpBy _ => some (i.next m).toNat
  | _ => none

theorem toNat_next_of_target? {i : Instruction} {m : Machine} {a : Nat}
    (h : i.target? m = some a) : (i.next m).toNat = a := by
  cases i with
  | jump | call | jumpBy => exact Option.some.inj h
  | _ => cases h

/-- The ways an instruction can lead on. -/
inductive NextCase (i : Instruction) (m : Machine) : Prop where
  | jumps {a : Nat} (h : i.target? m = some a) (hnext : (i.next m).toNat = a)
  | returns (hi : i = .leave) (h : i.next m = m.calls.top)
  | passes (h : i.next m = m.pc + 2)
  | skips (h : i.next m = m.pc + 4)

theorem nextCase (i : Instruction) (m : Machine) : NextCase i m := by
  cases htarget : i.target? m with
  | some a => exact .jumps htarget (toNat_next_of_target? htarget)
  | none =>
    cases i with
    | jump | call | jumpBy => cases htarget
    | leave => exact .returns rfl rfl
    | skip test =>
      cases hpasses : test.passes m with
      | true => exact .skips (if_pos hpasses)
      | false => exact .passes (if_neg (ne_true_of_eq_false hpasses))
    | _ => exact .passes rfl

theorem target?_le {i : Instruction} {m : Machine} {a : Nat} (h : i.target? m = some a) :
    a ≤ 0x10FE := by
  cases i with
  | jump target | call target =>
    have htarget := target.isLt
    rw [← Option.some.inj h]
    unfold next
    dsimp only
    rw [Machine.toNat_ofAddress]
    omega
  | jumpBy base =>
    have hregister := (m.register ⟨0, by decide⟩).toNat_lt
    have hbase := base.isLt
    rw [← Option.some.inj h]
    unfold next
    dsimp only
    rw [UInt16.toNat_ofNat']
    exact Nat.le_trans (Nat.mod_le _ _) (by omega)
  | _ => cases h

end Instruction

namespace Machine

/-- An instruction that is fetched from memory leads at most where a jump by a register does. -/
theorem toNat_next_le (i : Instruction) {m : Machine} (hpc : m.pc.toNat ≤ 0xFFE)
    (hslots : ∀ k, (m.calls.slot k).toNat ≤ 0x1000) : (i.next m).toNat ≤ 0x10FE := by
  have hnext : (m.pc + 2).toNat = m.pc.toNat + 2 := toNat_pc_add (by omega) (by decide)
  have hskip : (m.pc + 4).toNat = m.pc.toNat + 4 := toNat_pc_add (by omega) (by decide)
  cases i.nextCase m with
  | jumps h hnext =>
    rw [hnext]
    exact Instruction.target?_le h
  | returns hi h =>
    have htop : m.calls.top.toNat ≤ 0x1000 := hslots _
    rw [h]
    omega
  | passes h =>
    rw [h]
    omega
  | skips h =>
    rw [h]
    omega

/-! ## Cycles -/

/-- A cycle that executes an instruction and succeeds goes on where the instruction leads. -/
theorem pc_step_of_due? {m : Machine} {i : Instruction} (hi : m.due? = some i)
    (hok : m.step.fault = none) : m.step.machine.pc = i.next m := by
  rw [step_of_due? hi, Instruction.execute, Outcome.fault_onSuccess] at hok
  rw [step_of_due? hi, Instruction.execute, Outcome.onSuccess_of_none hok]
  rfl

/-- Where a cycle can leave the program counter: where it was, behind an opcode that is left out, or
where the instruction it executes leads. -/
theorem pc_step (m : Machine) :
    m.step.machine.pc = m.pc ∨
      m.pc.toNat ≤ 0xFFE ∧
        (m.step.machine.pc = m.pc + 2 ∨
          ∃ i, m.due? = some i ∧ m.step.fault = none ∧ m.step.machine.pc = i.next m) := by
  cases m.stepCase with
  | waiting hw hs | unfetched hw hf hs | refused hw hf hd hp hs =>
    left
    rw [hs]
    rfl
  | leftOut hw hf hd hp hs =>
    right
    exact ⟨pc_le_of_fetch hf, .inl (by rw [hs]; rfl)⟩
  | @executed i hi hs =>
    obtain ⟨-, op, hf, -⟩ := due?_eq_some_iff.mp hi
    cases hfault : m.step.fault with
    | some f =>
      left
      rw [(m.step_failsCleanly f hfault).1]
    | none =>
      right
      exact ⟨pc_le_of_fetch hf, .inr ⟨i, hi, rfl, pc_step_of_due? hi hfault⟩⟩

theorem Contained.step {m : Machine} (h : m.Contained) : m.step.machine.Contained := by
  obtain ⟨hpc, hslots⟩ := h
  constructor
  · rcases m.pc_step with hkept | ⟨hin, hpassed | ⟨i, -, -, hmoved⟩⟩
    · rw [hkept]
      exact hpc
    · have hnext : (m.pc + 2).toNat = m.pc.toNat + 2 := toNat_pc_add hpc (by decide)
      rw [hpassed]
      omega
    · rw [hmoved]
      exact toNat_next_le i hin hslots
  · intro k
    cases m.callsCase with
    | kept hkept =>
      rw [hkept]
      exact hslots k
    | called hi hpush =>
      have hle := pc_le_of_due? hi
      rw [CallStack.slot_push? hpush]
      split
      · rw [toNat_pc_add_two hi]
        exact hle
      · exact hslots k
    | left hi hpop hok htop =>
      rw [CallStack.slot_pop? hpop]
      exact hslots k

theorem pc_act_of_ne_cycle (m : Machine) {a : Act} (h : a ≠ .cycle) : (m.act a).pc = m.pc := by
  have hsame : Part.pc.Same m (m.act a) := by
    refine m.act_same a ?_
    cases a <;> simp_all [Act.touches]
  exact hsame

/-- A host moves neither the program counter nor the stack. -/
theorem Contained.act {m : Machine} (h : m.Contained) {a : Act} (ha : a ≠ .cycle) :
    (m.act a).Contained := by
  constructor
  · rw [m.pc_act_of_ne_cycle ha]
    exact h.pc
  · rw [m.calls_act_of_ne_cycle ha]
    exact h.slots

theorem contained_create (config : Config) (random : RandomBytes) :
    (create config random).Contained := by
  refine ⟨?_, fun k => ?_⟩
  · show (0x200 : UInt16).toNat ≤ 0x10FE
    decide
  · show (CallStack.empty.slot k).toNat ≤ 0x1000
    rw [CallStack.slot_empty]
    decide

theorem contained_after (config : Config) (random : RandomBytes) (requests : List Request) :
    ((create config random).after requests).Contained :=
  @invariant_after Contained (fun _ => True) (fun ha h => h.act ha) (fun h _ => h.step) _
    (contained_create config random) requests fun _ _ => trivial

/-! ## Behind the end of memory -/

/-- Where memory has no opcode, a cycle waits for a key or fails. -/
theorem step_of_outside {m : Machine} (h : 0xFFE < m.pc.toNat) :
    m.step =
      if m.isWaiting then .success m
      else .failure m (.addressOutOfRange (max m.pc.toNat 0x1000)) := by
  have hmissing : ¬ m.pc.toNat + 2 ≤ 0x1000 := by omega
  have hfetch : m.memory.fetch m.pc = .error (.addressOutOfRange (max m.pc.toNat 0x1000)) := by
    rw [Memory.fetch_eq]
    exact if_neg hmissing
  cases hw : m.isWaiting with
  | true => rw [step_of_isWaiting hw, if_pos rfl]
  | false => rw [step_of_error hw hfetch, if_neg Bool.false_ne_true]

/-- A program counter behind the end of memory stays there. -/
theorem Leads.pc_of_outside {m n : Machine} {moments : List Moment} (hleads : m.Leads moments n)
    (h : 0xFFE < m.pc.toNat) : n.pc = m.pc := by
  refine @Leads.invariant (fun n => n.pc = m.pc) (fun _ => True) _ _ _ hleads (fun ha hpc => ?_)
    (fun hpc _ => ?_) rfl fun _ _ => trivial
  · rw [pc_act_of_ne_cycle _ ha, hpc]
  · rw [step_of_outside (by rwa [hpc])]
    split <;> exact hpc

/-- **The program counter stays within bounds.** In every state a machine comes to, the program
counter is at most `0x10FE` and every word on the call stack at most `0x1000`, so neither the
address of the next opcode nor the one behind it wraps around. Once the program counter has left
memory, it stays there, and every cycle waits for a key or fails for want of an opcode. -/
theorem counter_stays_in_bounds (config : Config) (random : RandomBytes)
    (requests : List Request) :
    let now := (create config random).after requests
    now.pc.toNat ≤ 0x10FE ∧ (∀ k < 16, (now.calls.slot k).toNat ≤ 0x1000) ∧
      (now.pc + 2).toNat = now.pc.toNat + 2 ∧ (now.pc + 4).toNat = now.pc.toNat + 4 ∧
      (0xFFE < now.pc.toNat → ∀ later : List Request,
        (now.after later).pc = now.pc ∧
          ∀ start outcome log, .cycle start outcome log ∈ now.history later →
            start.pc = now.pc ∧
              outcome =
                if start.isWaiting then .success start
                else .failure start (.addressOutOfRange (max now.pc.toNat 0x1000))) := by
  intro now
  have hnow : now.Contained := contained_after config random requests
  refine ⟨hnow.pc, fun k _ => hnow.slots k, toNat_pc_add hnow.pc (by decide),
    toNat_pc_add hnow.pc (by decide), fun hout later => ⟨?_, ?_⟩⟩
  · exact (Leads.history now later).pc_of_outside hout
  · intro start outcome log hmem
    obtain ⟨past, rest, hsplit⟩ := List.append_of_mem hmem
    have hleads := Leads.history now later
    rw [hsplit] at hleads
    obtain ⟨hpast, rfl, -⟩ := hleads.to_cycle
    have hpc : start.pc = now.pc := hpast.pc_of_outside hout
    refine ⟨hpc, ?_⟩
    rw [step_of_outside (by rwa [hpc]), hpc]

/-- A program that waits for a key at the last word of memory, where it has put the opcode itself.
Behind the end of memory it waits until a key goes down, and then finds no opcode. -/
theorem counter_stays_in_bounds_at_end :
    let now := (create { preloadFont := false } (.ofList [])).after
      [.load [0x60, 0xF5, 0x61, 0x0A, 0xAF, 0xFE, 0xF1, 0x55, 0x1F, 0xFE], .step 6]
    let later := [Request.step 2, .press 7, .step 1]
    (0xFFE < now.pc.toNat ∧ now.isWaiting = true ∧ (now.after later).isWaiting = false) ∧
      (now.after later).pc = 0x1000 ∧
      ∀ x ∈ now.history later,
        x.fault? = none ∨ x.fault? = some (.addressOutOfRange 0x1000) := by
  intro now later
  have hnow : now.pc = 0x1000 ∧ now.isWaiting = true ∧ (now.after later).isWaiting = false := by
    decide +kernel
  have hout : 0xFFE < now.pc.toNat := by
    rw [hnow.1]
    decide
  obtain ⟨-, -, -, -, hstays⟩ := counter_stays_in_bounds { preloadFont := false } (.ofList [])
    [.load [0x60, 0xF5, 0x61, 0x0A, 0xAF, 0xFE, 0xF1, 0x55, 0x1F, 0xFE], .step 6]
  obtain ⟨hpc, hcycles⟩ := hstays hout later
  refine ⟨⟨hout, hnow.2⟩, hpc.trans hnow.1, fun x hx => ?_⟩
  cases x with
  | answer => exact .inl rfl
  | cycle start outcome log =>
    obtain ⟨-, houtcome⟩ := hcycles start outcome log hx
    rw [Moment.fault?, houtcome]
    split
    · exact .inl rfl
    · right
      show some (Fault.addressOutOfRange (max now.pc.toNat 0x1000)) = _
      rw [hnow.1]
      rfl

-- The jump by a register reaches the bound.
example :
    ((create { preloadFont := false } (.ofList [])).after
      [.load [0x60, 0xFF, 0xBF, 0xFF], .step 2]).pc = 0x10FE := by
  decide +kernel

end Machine
end ChipEight
