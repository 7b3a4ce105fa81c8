import ChipEight.Proofs.ByteMap
import ChipEight.Proofs.SoundScreen
import ChipEight.Proofs.UnknownOpcodes

/-!
What a session says of a cycle that failed. The address it names is read off the machine behind the
cycle, but a cycle that fails leaves its machine as it was, so it is the address the cycle started
from. `Scripted.TurnCase` lists the ways a turn can go; going through the turns, a session ends with
the failure of a cycle just if one of its cycles fails, and that cycle is its last.
-/
namespace ChipEight

/-! ## Faults of a cycle -/

/-- The place in the program that a fault names, if it names one. -/
def Fault.pc? : Fault → Option UInt16
  | stackOverflow pc | stackUnderflow pc | unknownOpcode _ pc => some pc
  | imageTooLarge _ | addressOutOfRange _ | spriteOutOfBounds .. | io _ => none

theorem Fault.OfCycle.eq_of_pc? {m : Machine} {f : Fault} (h : f.OfCycle m) {pc : UInt16}
    (hpc : f.pc? = some pc) : pc = m.pc := by
  cases h with
  | overflow | underflow | unknown => exact (Option.some.inj hpc).symm
  | address | sprite => cases hpc

namespace Machine

/-- A cycle that finds no opcode names the first byte of it that memory does not have. -/
theorem fault_step_of_unfetched {m : Machine} {f cause : Fault}
    (hf : m.memory.fetch m.pc = .error f) (h : m.step.fault = some cause) :
    cause = .addressOutOfRange (max m.pc.toNat 0x1000) ∧ 0xFFE < m.pc.toNat := by
  have hcause : f = cause := by
    cases hw : m.isWaiting with
    | true =>
      rw [step_of_isWaiting hw] at h
      cases h
    | false =>
      rw [step_of_error hw hf] at h
      exact Option.some.inj h
  rw [Memory.fetch_eq] at hf
  split at hf
  · cases hf
  · rename_i hpc
    simp only [Memory.size] at hf hpc
    exact ⟨hcause.symm.trans (Except.error.inj hf).symm, by omega⟩

/-- An opcode that a cycle refuses as unknown is the one it has fetched. -/
theorem fetch_of_fault_step {m : Machine} {op : Opcode} {pc : UInt16}
    (h : m.step.fault = some (.unknownOpcode op pc)) : m.memory.fetch m.pc = .ok op := by
  cases m.stepCase with
  | waiting _ hs | leftOut _ _ _ _ hs =>
    rw [hs] at h
    cases h
  | @unfetched f hw hf hs =>
    cases (fault_step_of_unfetched hf h).1
  | refused _ hf _ _ hs =>
    rw [hs] at h
    cases h
    exact hf
  | @executed i _ hs =>
    rw [hs] at h
    exact absurd h (i.fault_execute_ne_unknown op pc m)

end Machine

namespace Host
open CommandLine (Settings)

/-! ## Turns -/

namespace Session

/-- A session that shows its frame goes on, or its screen has failed. -/
theorem ending_refresh (s : Session) :
    s.refresh.ScreenFailed ∨ s.refresh.ending = s.ending := by
  cases hdirty : s.machine.display.dirty with
  | false => exact .inr (by rw [refresh_of_clean hdirty])
  | true =>
    rcases refresh_of_dirty hdirty with hfail | hs
    · exact .inl hfail
    · exact .inr (by rw [hs])

end Session

namespace Scripted

/-- The ways a turn of a session that goes on can go. -/
inductive TurnCase (s : Scripted) (ticks : Nat) : Prop where
  /-- The screen fails. -/
  | unshown {message : String} (hstart : s.cycleStart? = none)
      (hending : (s.turn ticks).session.ending = some (.failed (.screen message)))
  /-- An event asks for the end. -/
  | closed (hstart : s.cycleStart? = none)
      (hending : (s.turn ticks).session.ending = some .closed)
  /-- The cycle fails. -/
  | failed {m : Machine} {cause : Fault} (hstart : s.cycleStart? = some m)
      (hfault : m.step.fault = some cause)
      (hending : (s.turn ticks).session.ending = some (.failed (.cycle m.pc cause)))
      (hmachine : (s.turn ticks).session.machine = m)
  /-- The cycle succeeds. -/
  | going {m : Machine} (hstart : s.cycleStart? = some m) (hfault : m.step.fault = none)
      (hending : (s.turn ticks).session.ending = none)

theorem turnCase {s : Scripted} (hgoing : s.session.ending = none) (ticks : Nat) :
    s.TurnCase ticks := by
  rcases s.session.ending_refresh with ⟨message, hfail⟩ | hrefresh
  · have hending : (s.turn ticks).session.ending = some (.failed (.screen message)) := by
      rw [turn_of_failed (by simp [hfail]), hfail]
    refine .unshown ?_ hending
    simp [cycleStart?, hfail]
  · have hon : s.session.refresh.ending = none := hrefresh.trans hgoing
    let events := (poll s.session.refresh.screen.shown.size s.script).1
    let asked := Session.handleAll events s.session.refresh
    have hturn : (s.turn ticks).session = asked.andThen (·.cycle ticks) :=
      congrArg Scripted.session (turn_of_shown hon ticks)
    have hstart : s.cycleStart? = if asked.ending.isSome then none else some asked.machine := by
      simp [cycleStart?, hon, asked, events]
    have hasked : asked.ending = if events.any Event.closes then some .closed else none :=
      (Session.handleAll_asks events hon).2.1
    cases hcloses : events.any Event.closes with
    | true =>
      rw [hcloses, if_pos rfl] at hasked
      rw [hasked] at hstart
      refine .closed hstart ?_
      rw [hturn, Session.andThen, hasked]
      exact hasked
    | false =>
      rw [hcloses, if_neg Bool.false_ne_true] at hasked
      rw [hasked] at hstart
      have hcycle : (s.turn ticks).session = asked.cycle ticks := by
        rw [hturn, Session.andThen, hasked]
        rfl
      cases hfault : asked.machine.step.fault with
      | some cause =>
        have hclean := (asked.machine.step_failsCleanly cause hfault).1
        refine .failed hstart hfault ?_ ?_
        · rw [hcycle, Session.cycle, hfault, hclean]
          rfl
        · rw [hcycle, Session.cycle, hfault, hclean]
          rfl
      | none =>
        refine .going hstart hfault ?_
        rw [hcycle, Session.cycle, hfault]
        exact hasked

/-! ## Runs -/

/-- What a session says of its cycles, given the machines they started from, is what they came
to. -/
structure Reports (s : Session) (starts : List Machine) : Prop where
  /-- A cycle that fails ends the session. -/
  told {m : Machine} {cause : Fault} : m ∈ starts → m.step.fault = some cause →
    s.ending = some (.failed (.cycle m.pc cause))
  /-- The cycle that a session ends with has failed, and is its last. -/
  last {pc : UInt16} {cause : Fault} : s.ending = some (.failed (.cycle pc cause)) →
    ∃ m, starts.getLast? = some m ∧ m.step.fault = some cause ∧ m.pc = pc ∧ s.machine = m

/-- A session that says nothing of its cycles has had none that failed. -/
theorem Reports.of_nil {s : Session}
    (h : ∀ pc cause, s.ending ≠ some (.failed (.cycle pc cause))) : Reports s [] where
  told hmem := by cases hmem
  last hending := absurd hending (h _ _)

theorem Reports.cons {s : Session} {m : Machine} {starts : List Machine}
    (hfault : m.step.fault = none) (h : Reports s starts) : Reports s (m :: starts) where
  told hmem hcause := by
    rcases List.mem_cons.mp hmem with rfl | hmem
    · cases hfault.symm.trans hcause
    · exact h.told hmem hcause
  last hending := by
    obtain ⟨n, hlast, hn⟩ := h.last hending
    exact ⟨n, by rw [List.getLast?_cons, hlast, Option.getD_some], hn⟩

theorem cycleStarts_of_ended {s : Scripted} {ticks : Nat → Nat} (h : s.session.ending ≠ none)
    (limit done : Nat) : cycleStarts ticks limit done s = [] := by
  cases limit with
  | zero => rfl
  | succ limit => rw [cycleStarts, if_pos (Option.isSome_iff_ne_none.mpr h)]

theorem cycleStarts_of_going {s : Scripted} {ticks : Nat → Nat} (h : s.session.ending = none)
    (limit done : Nat) :
    cycleStarts ticks (limit + 1) done s =
      s.cycleStart?.toList ++ cycleStarts ticks limit (done + 1) (s.turn (ticks done)) := by
  rw [cycleStarts, h, Option.isSome_none, if_neg Bool.false_ne_true]

theorem turns_report (ticks : Nat → Nat) (limit done : Nat) {s : Scripted}
    (h : s.session.ending = none) :
    Reports (turns ticks limit done s).session (cycleStarts ticks limit done s) := by
  induction limit generalizing done s with
  | zero => exact .of_nil (by simp [turns, h])
  | succ limit ih =>
    rw [turns_of_going h, cycleStarts_of_going h]
    cases turnCase h (ticks done) with
    | unshown hstart hending | closed hstart hending =>
      rw [turns_of_ended (by simp [hending]), cycleStarts_of_ended (by simp [hending]), hstart]
      exact .of_nil (by simp [hending])
    | @failed m cause hstart hfault hending hmachine =>
      rw [turns_of_ended (by simp [hending]), cycleStarts_of_ended (by simp [hending]), hstart]
      refine ⟨fun hmem hcause => ?_, fun hlast => ⟨m, rfl, ?_⟩⟩
      · rw [List.append_nil, Option.toList_some, List.mem_singleton] at hmem
        subst hmem
        obtain rfl := Option.some.inj (hfault.symm.trans hcause)
        exact hending
      · rw [hending] at hlast
        cases hlast
        exact ⟨hfault, rfl, hmachine⟩
    | @going m hstart hfault hending =>
      rw [hstart]
      exact (ih (done + 1) hending).cons hfault

end Scripted

/-! ## Sessions -/

/-- A session that does not come through its start has had no cycle. -/
theorem Session.ending_start_ne_cycle (settings : Settings) (file : Except ReadError (List UInt8))
    (screen : Screen) (random : RandomBytes) (pc : UInt16) (cause : Fault) :
    (Session.start settings file screen random).ending ≠ some (.failed (.cycle pc cause)) := by
  cases hrefused : refusal? settings file with
  | some why =>
    rw [(start_of_refused hrefused screen random).1]
    intro hcycle
    cases hcycle
    cases file with
    | error => cases hrefused
    | ok image => simp [refusal?] at hrefused
  | none =>
    obtain ⟨image, rfl, hfits⟩ := fits_of_not_refused hrefused
    rw [(start_of_fits hfits screen random).1]
    cases hopened : ((loaded settings image screen random).screen.openWindow settings.scale).2 with
    | some message => simp [openWindow_of_some hopened]
    | none =>
      rw [openWindow_of_none hopened]
      simp [loaded]

/-- **A session names the address of the cycle that failed.** If a cycle fails, the session ends
with that failure. And the address a session gives for a failed cycle is the one its last cycle
started from, on the machine that the session is left with. A fault that names a place in the
program names that address; one that names an unknown opcode names the word which memory has there;
and if there was no opcode to fetch, the address is one of the last, and the fault names the first
byte behind the end of memory. -/
theorem session_names_failed_cycle (settings : Settings) (file : Except ReadError (List UInt8))
    (fault : Option ScreenFault) (padding : Nat) (random : RandomBytes) (script : List ScriptItem)
    (ticks : Nat → Nat) (limit : Nat) :
    let starts :=
      (Scripted.started settings file (.fresh fault padding) random script).cycleStarts ticks limit 0
    let final := (Scripted.run settings file (.fresh fault padding) random script ticks
      limit).session
    (∀ m ∈ starts, ∀ cause, m.step.fault = some cause →
        final.ending = some (.failed (.cycle m.pc cause))) ∧
      ∀ address cause, final.ending = some (.failed (.cycle address cause)) →
        (Failure.cycle address cause).message =
            "cycle at " ++ Hex.address address.toNat ++ " failed: " ++ cause.message ∧
          ∃ m, starts.getLast? = some m ∧ final.machine = m ∧ m.pc = address ∧
            m.step.fault = some cause ∧
            (∀ pc, cause.pc? = some pc → pc = address) ∧
            (∀ op pc, cause = .unknownOpcode op pc →
              op.word.toNat = 256 * (m.memory.byte address.toNat).toNat +
                (m.memory.byte (address.toNat + 1)).toNat) ∧
            ∀ f, m.memory.fetch address = .error f →
              cause = .addressOutOfRange (max address.toNat 0x1000) ∧ 0xFFE < address.toNat := by
  intro starts final
  have hreports : Scripted.Reports final starts := by
    let start := Scripted.started settings file (.fresh fault padding) random script
    by_cases hgoing : start.session.ending = none
    · exact Scripted.turns_report ticks limit 0 hgoing
    · have hfinal : final = start.session :=
        congrArg Scripted.session (Scripted.turns_of_ended hgoing limit 0)
      have hstarts : starts = [] := Scripted.cycleStarts_of_ended hgoing limit 0
      rw [hfinal, hstarts]
      exact .of_nil (Session.ending_start_ne_cycle settings file _ random)
  refine ⟨fun m hmem cause hfault => hreports.told hmem hfault,
    fun address cause hending => ⟨rfl, ?_⟩⟩
  obtain ⟨m, hlast, hfault, rfl, hmachine⟩ := hreports.last hending
  refine ⟨m, hlast, hmachine, rfl, hfault, fun pc hpc => ?_, ?_, fun f hf => ?_⟩
  · exact (m.step_failsCleanly cause hfault).2.eq_of_pc? hpc
  · rintro op pc rfl
    rw [(Memory.fetch_eq_ok_iff.mp (Machine.fetch_of_fault_step hfault)).2]
    exact m.memory.toNat_word m.pc.toNat
  · exact Machine.fault_step_of_unfetched hf hfault

/-- A program that waits for a key, and goes on with an opcode that stands for no instruction: the
session gives its address, and says so in words. -/
theorem session_names_failed_cycle_behind_key :
    let settings : Settings := ⟨"game", { unknown := .fail }, 500, 10, .info⟩
    let script := [.quiet 3, .events [.keyDown (some ⟨"Q"⟩)], .quiet 3]
    let start := Scripted.started settings (.ok [0xF0, 0x0A, 0x81, 0x28]) (.fresh none 3) (.ofList [])
      script
    let final := (Scripted.run settings (.ok [0xF0, 0x0A, 0x81, 0x28]) (.fresh none 3) (.ofList [])
      script (fun turn => turn) 9).session
    final.ending = some (.failed (.cycle 0x202 (.unknownOpcode ⟨0x8128⟩ 0x202))) ∧
      (Failure.cycle 0x202 (.unknownOpcode ⟨0x8128⟩ 0x202)).message =
        "cycle at 0x0202 failed: unknown opcode 0x8128 at 0x0202" ∧
      ∃ m, (start.cycleStarts (fun turn => turn) 9 0).getLast? = some m ∧ final.machine = m ∧
        m.pc = 0x202 := by
  intro settings script start final
  have hending : final.ending = some (.failed (.cycle 0x202 (.unknownOpcode ⟨0x8128⟩ 0x202))) := by
    decide +kernel
  obtain ⟨-, hnames⟩ := session_names_failed_cycle settings (.ok [0xF0, 0x0A, 0x81, 0x28]) none 3
    (.ofList []) script (fun turn => turn) 9
  obtain ⟨-, m, hlast, hmachine, hpc, -⟩ := hnames _ _ hending
  exact ⟨hending, by decide +kernel, m, hlast, hmachine, hpc⟩

end Host
end ChipEight
