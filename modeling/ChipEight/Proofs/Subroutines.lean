import ChipEight.Proofs.Acts
import Mathlib.Data.List.Infix

/-!
Subroutines. A call takes the next slot of the call stack and puts the address behind it there.
`CallStack.Guards` is what holds until the subroutine returns: the slot is in use and keeps that
address, and the slots below it are those of the caller. Calls further in write only above it, and
of the other acts none touches the call stack, so whatever the subroutine does it goes back to where
it was called from.
-/
namespace ChipEight

namespace CallStack

/-- The stack of a subroutine still running, which was called when the stack was `outer` and goes
back to `home`. -/
structure Guards (s outer : CallStack) (home : UInt16) : Prop where
  deeper : outer.depth < s.depth
  top : s.slot outer.depth = home
  below : ∀ k < outer.depth, s.slot k = outer.slot k

theorem guards_of_push? {outer s : CallStack} {home : UInt16} (h : outer.push? home = some s) :
    s.Guards outer home := by
  have hslot := slot_push? h
  obtain ⟨-, rfl⟩ := push?_eq_some_iff.mp h
  refine ⟨Nat.lt_succ_self _, by simp [hslot], fun k hk => ?_⟩
  rw [hslot, if_neg (Nat.ne_of_lt hk)]

theorem Guards.push? {s t outer : CallStack} {home word : UInt16} (g : s.Guards outer home)
    (h : s.push? word = some t) : t.Guards outer home := by
  have hslot := slot_push? h
  have hd := g.deeper
  obtain ⟨-, rfl⟩ := push?_eq_some_iff.mp h
  refine ⟨Nat.lt_succ_of_lt hd, ?_, fun k hk => ?_⟩
  · rw [hslot, if_neg (Nat.ne_of_lt hd)]
    exact g.top
  · rw [hslot, if_neg (by omega)]
    exact g.below k hk

theorem Guards.pop? {s t outer : CallStack} {home : UInt16} (g : s.Guards outer home)
    (h : s.pop? = some t) (hd : outer.depth < t.depth) : t.Guards outer home :=
  ⟨hd, (slot_pop? h _).trans g.top, fun k hk => (slot_pop? h k).trans (g.below k hk)⟩

/-- A return that gives up the guarded slot reads it on the way. -/
theorem Guards.returns {s t outer : CallStack} {home : UInt16} (g : s.Guards outer home)
    (h : s.pop? = some t) (hd : t.depth ≤ outer.depth) :
    t.depth = outer.depth ∧ s.top = home := by
  have hdeep := g.deeper
  obtain ⟨-, rfl⟩ := pop?_eq_some_iff.mp h
  have hs : s.depth - 1 = outer.depth := by
    simp only at hd
    omega
  exact ⟨hs, by rw [CallStack.top, hs]; exact g.top⟩

end CallStack

namespace Machine

/-! ## What a cycle does to the call stack -/

/-- The ways a cycle can leave the call stack. -/
inductive CallsCase (m : Machine) : Prop where
  | kept (h : m.step.machine.calls = m.calls)
  | called {target : Address} (hi : m.due? = some (.call target))
      (h : m.calls.push? (m.pc + 2) = some m.step.machine.calls)
  | left (hi : m.due? = some .leave) (h : m.calls.pop? = some m.step.machine.calls)
      (hok : m.step.fault = none) (hpc : m.step.machine.pc = m.calls.top)

theorem callsCase (m : Machine) : CallsCase m := by
  by_cases hc : ∃ i, m.due? = some i ∧ Part.calls ∈ i.touches
  · obtain ⟨i, hi, ht⟩ := hc
    have hs := step_of_due? hi
    cases i with
    | call target =>
      cases hp : m.calls.push? (m.pc + 2) with
      | none =>
        have he : (Instruction.call target).effect m = .failure m (.stackOverflow m.pc) := by
          simp [Instruction.effect, hp]
        rw [Instruction.execute_of_failure he] at hs
        exact .kept (by rw [hs]; rfl)
      | some calls =>
        have he : (Instruction.call target).effect m = .success { m with calls } := by
          simp [Instruction.effect, hp]
        rw [Instruction.execute_of_success he] at hs
        exact .called hi (by rw [hp, hs]; rfl)
    | leave =>
      cases hp : m.calls.pop? with
      | none =>
        have he : Instruction.leave.effect m = .failure m (.stackUnderflow m.pc) := by
          simp [Instruction.effect, hp]
        rw [Instruction.execute_of_failure he] at hs
        exact .kept (by rw [hs]; rfl)
      | some calls =>
        have he : Instruction.leave.effect m = .success { m with calls } := by
          simp [Instruction.effect, hp]
        rw [Instruction.execute_of_success he] at hs
        exact .left hi (by rw [hp, hs]; rfl) (by rw [hs]; rfl) (by rw [hs]; rfl)
    | _ => simp [Instruction.touches] at ht
  · have hsame : Part.calls.Same m m.step.machine :=
      m.step_same (fun i hi ht => hc ⟨i, hi, ht⟩) (by decide)
    exact .kept hsame

/-- A host's deeds leave the call stack alone. -/
theorem calls_act_of_ne_cycle (m : Machine) {a : Act} (h : a ≠ .cycle) :
    (m.act a).calls = m.calls := by
  have hsame : Part.calls.Same m (m.act a) := by
    refine m.act_same a ?_
    cases a <;> simp_all [Act.touches]
  exact hsame

end Machine

/-! ## Until the return -/

namespace CallStack.Guards

theorem act {m : Machine} {outer : CallStack} {home : UInt16} (g : m.calls.Guards outer home)
    (a : Act) (hd : outer.depth < (m.act a).calls.depth) : (m.act a).calls.Guards outer home := by
  by_cases ha : a = .cycle
  · subst ha
    rw [m.act_cycle] at hd ⊢
    cases m.callsCase with
    | kept h =>
      rw [h]
      exact g
    | called hi h => exact g.push? h
    | left hi h hok hpc => exact g.pop? h hd
  · rw [m.calls_act_of_ne_cycle ha]
    exact g

/-- The guarded slot outlasts every run that stays above it. -/
theorem perform {m : Machine} {outer : CallStack} {home : UInt16} (g : m.calls.Guards outer home)
    (acts : List Act)
    (hd : ∀ done, done <+: acts → outer.depth < (m.perform done).calls.depth) :
    (m.perform acts).calls.Guards outer home := by
  induction acts generalizing m with
  | nil => exact g
  | cons a rest ih =>
    have ha : outer.depth < (m.act a).calls.depth := hd [a] (List.prefix_append [a] rest)
    refine ih (g.act a ha) fun done hdone => ?_
    exact hd (a :: done) ((List.prefix_cons_inj a).mpr hdone)

/-- Only a return gets out of a subroutine. -/
theorem act_of_le {m : Machine} {outer : CallStack} {home : UInt16}
    (g : m.calls.Guards outer home) {a : Act} (hd : (m.act a).calls.depth ≤ outer.depth) :
    a = .cycle ∧ m.due? = some .leave ∧ m.step.fault = none ∧
      (m.act a).calls.depth = outer.depth ∧ (m.act a).pc = home := by
  have hdeep := g.deeper
  by_cases ha : a = .cycle
  · subst ha
    rw [m.act_cycle] at hd ⊢
    cases m.callsCase with
    | kept h =>
      rw [h] at hd
      omega
    | called hi h =>
      have := (g.push? h).deeper
      omega
    | left hi h hok hpc =>
      obtain ⟨hdepth, htop⟩ := g.returns h hd
      exact ⟨rfl, hi, hok, hdepth, hpc.trans htop⟩
  · rw [m.calls_act_of_ne_cycle ha] at hd
    omega

end CallStack.Guards

namespace Machine

/-- A call that succeeds leaves the stack guarded. -/
theorem guards_of_call {m : Machine} {target : Address} (hcall : m.due? = some (.call target))
    (hok : m.step.fault = none) : m.step.machine.calls.Guards m.calls (m.pc + 2) := by
  have hs := step_of_due? hcall
  cases hp : m.calls.push? (m.pc + 2) with
  | none =>
    have he : (Instruction.call target).effect m = .failure m (.stackOverflow m.pc) := by
      simp [Instruction.effect, hp]
    rw [hs, Instruction.execute_of_failure he] at hok
    cases hok
  | some calls =>
    have he : (Instruction.call target).effect m = .success { m with calls } := by
      simp [Instruction.effect, hp]
    rw [hs, Instruction.execute_of_success he]
    exact CallStack.guards_of_push? hp

/-- **Subroutines return to where they were called from.** After a call that succeeds, and through
any cycles and deeds of the host, for as long as the stack has stayed above its depth at the call:
the slot of the call still holds the address behind it and the slots below are unchanged. And only a
return brings the stack back to that depth; it goes to the address behind the call. -/
theorem subroutine_returns (m : Machine) (target : Address) (acts : List Act)
    (hcall : m.due? = some (.call target)) (hok : m.step.fault = none)
    (hdeep : ∀ done, done <+: acts →
      m.calls.depth < (m.step.machine.perform done).calls.depth) :
    let inside := m.step.machine.perform acts
    (inside.calls.slot m.calls.depth).toNat = m.pc.toNat + 2 ∧
      (∀ k < m.calls.depth, inside.calls.slot k = m.calls.slot k) ∧
      ∀ a, (inside.act a).calls.depth ≤ m.calls.depth →
        a = .cycle ∧ inside.due? = some .leave ∧ inside.step.fault = none ∧
          (inside.act a).calls.depth = m.calls.depth ∧
          (inside.act a).pc.toNat = m.pc.toNat + 2 := by
  intro inside
  have hpc := toNat_pc_add_two hcall
  have g : inside.calls.Guards m.calls (m.pc + 2) := (guards_of_call hcall hok).perform acts hdeep
  refine ⟨by rw [g.top, hpc], g.below, fun a ha => ?_⟩
  obtain ⟨hcycle, hdue, hfault, hdepth, hhome⟩ := g.act_of_le ha
  exact ⟨hcycle, hdue, hfault, hdepth, by rw [hhome, hpc]⟩

/-- A subroutine that calls another one, which goes back to a word that is a return itself;
meanwhile a key goes down, the timers fall and an image is loaded. -/
theorem subroutine_returns_from_nested :
    let m := (Machine.bare {} (.ofList [])).act (.load [0x22, 0x02, 0x22, 0x04, 0x00, 0xEE])
    let inside := m.step.machine.perform [.press 5, .cycle, .tick, .load [0x12], .cycle]
    inside.due? = some .leave ∧ (inside.act .cycle).pc.toNat = 0x202 := by
  intro m inside
  have hcall : m.due? = some (.call ⟨0x202, by decide⟩) ∧ m.step.fault = none := by
    decide +kernel
  have hdeep : (∀ done ∈ [Act.press 5, .cycle, .tick, .load [0x12], .cycle].inits,
      m.calls.depth < (m.step.machine.perform done).calls.depth) ∧
        (inside.act .cycle).calls.depth ≤ m.calls.depth := by
    decide +kernel
  obtain ⟨-, -, hreturn⟩ := subroutine_returns m ⟨0x202, by decide⟩
    [.press 5, .cycle, .tick, .load [0x12], .cycle] hcall.1 hcall.2
    fun done hdone => hdeep.1 done ((List.mem_inits _ _).mpr hdone)
  obtain ⟨-, hleave, -, -, hpc⟩ := hreturn .cycle hdeep.2
  exact ⟨hleave, hpc⟩

end Machine
end ChipEight
