import ChipEight.Proofs.History

/-!
Standstill. A cycle that fails leaves the machine as it is, and so does one that waits for a key:
such a machine stands still, and what a host does to it meanwhile reaches only its timers, its keys
and the memory it is given (`Machine.Still`). Whether a cycle fails depends on none of the first
two, so a fault stays (`Machine.fault_stays`); and a machine that waits is only ever released by a
key, after which it goes on where it would have gone on at once (`Machine.waits_for_key`).
-/
namespace ChipEight

namespace Machine

/-- A machine that has stood still: nothing else has changed than the timers, the keys, the memory
and the note that the frame is to be shown. -/
structure Still (m m' : Machine) : Prop where
  config : m'.config = m.config
  registers : m'.registers = m.registers
  index : m'.index = m.index
  pc : m'.pc = m.pc
  calls : m'.calls = m.calls
  awaiting : m'.awaiting = m.awaiting
  frame : m'.display.frame = m.display.frame
  random : m'.random = m.random

namespace Still

theorem refl (m : Machine) : m.Still m :=
  ⟨rfl, rfl, rfl, rfl, rfl, rfl, rfl, rfl⟩

theorem trans {a b c : Machine} (hab : a.Still b) (hbc : b.Still c) : a.Still c where
  config := hbc.config.trans hab.config
  registers := hbc.registers.trans hab.registers
  index := hbc.index.trans hab.index
  pc := hbc.pc.trans hab.pc
  calls := hbc.calls.trans hab.calls
  awaiting := hbc.awaiting.trans hab.awaiting
  frame := hbc.frame.trans hab.frame
  random := hbc.random.trans hab.random

theorem of_same {m m' : Machine}
    (h : ∀ part, part ∉ [Part.delay, .sound, .keys, .memory] → part.Same m m') : m.Still m' where
  config := h .config (by decide)
  registers := h .registers (by decide)
  index := h .index (by decide)
  pc := h .pc (by decide)
  calls := h .calls (by decide)
  awaiting := h .awaiting (by decide)
  frame := congrArg Display.frame (h .display (by decide))
  random := h .random (by decide)

/-- A key that nobody waits for, or that does not exist, goes to no register. -/
theorem press {m : Machine} {key : UInt8} (h : m.awaiting = none ∨ 16 ≤ key.toNat) :
    m.Still (m.press key) := by
  by_cases hkey : key.toNat < 16
  · rw [press_of_awaiting_none (h.resolve_right (Nat.not_le.mpr hkey)) hkey]
    exact ⟨rfl, rfl, rfl, rfl, rfl, rfl, rfl, rfl⟩
  · rw [press_of_not_key hkey]
    exact refl m

/-- A machine whose cycles come to nothing stands still, whatever its host does short of giving it
the key it waits for. -/
theorem act {m : Machine} (hrest : m.step.machine = m) {a : Act}
    (hkey : ∀ key, a = .press key → m.awaiting = none ∨ 16 ≤ key.toNat) : m.Still (m.act a) := by
  cases a with
  | cycle =>
    rw [act_cycle, hrest]
    exact refl m
  | press key => exact press (hkey key rfl)
  | acknowledge => exact ⟨rfl, rfl, rfl, rfl, rfl, rfl, rfl, rfl⟩
  | load | loadFrom | release | tick | setDelay | tickDelay =>
    refine of_same fun part hpart => m.act_same _ ?_
    simp only [List.mem_cons, not_or, List.not_mem_nil, not_false_eq_true, and_true] at hpart
    simp [Act.touches, hpart]

end Still
end Machine

/-! ## Faults -/

/-- Whether an instruction fails, and how, depends on no timer, key, cell or random byte. -/
theorem Instruction.fault_effect (i : Instruction) {m m' : Machine} (h : m.Still m')
    (hmemory : m'.memory = m.memory) : (i.effect m').fault = (i.effect m).fault := by
  have hregister : ∀ x, m'.register x = m.register x := by
    intro x
    rw [Machine.register, h.registers]
    rfl
  cases i with
  | leave =>
    simp only [effect, h.calls, h.pc]
    cases m.calls.pop? <;> rfl
  | call target =>
    simp only [effect, h.calls, h.pc]
    cases m.calls.push? (m.pc + 2) <;> rfl
  | draw x y rows =>
    simp only [effect, h.config, h.index, hmemory, hregister]
    cases m.memory.read m.index rows.val with
    | error f => rfl
    | ok sprite =>
      simp only [Outcome.check_ok]
      cases m.config.edges.placeAll (m.register x).toNat (m.register y).toNat
        (Sprite.litCells sprite) <;> rfl
  | storeDecimal x =>
    simp only [effect, Machine.store, h.index, hmemory, hregister]
    cases m.memory.write m.index (decimalDigits (m.register x)) _ <;> rfl
  | save last =>
    simp only [effect, Machine.store, h.index, hmemory, h.registers]
    cases m.memory.write m.index (m.registers.toList.take (last.val + 1)) _ <;> rfl
  | restore last =>
    simp only [effect, h.index, hmemory]
    cases m.memory.read m.index (last.val + 1) <;> rfl
  | _ => rfl

namespace Machine

theorem Still.fault_step {m m' : Machine} (h : m.Still m') (hmemory : m'.memory = m.memory) :
    m'.step.fault = m.step.fault := by
  have hwaiting : m'.isWaiting = m.isWaiting := by rw [isWaiting, h.awaiting]; rfl
  rw [step, step, hwaiting, hmemory, h.pc]
  split
  · rfl
  · cases m.memory.fetch m.pc with
    | error f => rfl
    | ok op =>
      simp only [Outcome.check_ok, execute, h.config, h.pc]
      cases Instruction.decode? op with
      | some i =>
        simp only [Instruction.execute, Outcome.fault_onSuccess]
        exact i.fault_effect h hmemory
      | none => cases m.config.unknown <;> rfl

theorem awaiting_of_fault {m : Machine} {f : Fault} (h : m.step.fault = some f) :
    m.awaiting = none := by
  rw [← Option.not_isSome_iff_eq_none]
  intro hwaiting
  rw [step_of_isWaiting hwaiting] at h
  cases h

theorem run_of_fault {m : Machine} {f : Fault} (h : m.step.fault = some f)
    (halt : Machine → Bool) (limit : Nat) :
    (Run.start m).cyclesUntil halt (limit + 1) = ⟨m, 0, m.stepLog.toArray, some f⟩ := by
  have hstep : (Run.start m).step = ⟨m, 0, m.stepLog.toArray, some f⟩ := by
    have hs := step_of_fault h
    simp [Run.step, Run.start, Run.record, hs, Outcome.failure]
  rw [Run.cyclesUntil, hstep]
  rfl

/-- A machine at rest is given the images its host loads, and nothing else comes to its memory. -/
theorem memory_act_of_rest {m : Machine} (hrest : m.step.machine = m) (a : Act) :
    (m.act a).memory =
      a.request.image?.elim m.memory fun image => m.memory.put Memory.programStart image := by
  by_cases hcycle : a = .cycle
  · rw [hcycle, act_cycle, hrest]
    rfl
  · exact memory_act_of_ne_cycle m hcycle

theorem fault_perform {m : Machine} {f : Fault} (h : m.step.fault = some f) {acts : List Act}
    (hacts : ∀ a ∈ acts, a.request.image? = none) :
    m.Still (m.perform acts) ∧ (m.perform acts).memory = m.memory ∧
      (m.perform acts).step.fault = some f := by
  induction acts generalizing m with
  | nil => exact ⟨.refl m, rfl, h⟩
  | cons a rest ih =>
    have hrest : m.step.machine = m := (m.step_failsCleanly f h).1
    have hstill : m.Still (m.act a) := Still.act hrest fun _ _ => .inl (awaiting_of_fault h)
    have hmemory : (m.act a).memory = m.memory := by
      rw [memory_act_of_rest hrest, hacts a List.mem_cons_self]
      rfl
    have hfault : (m.act a).step.fault = some f := (hstill.fault_step hmemory).trans h
    obtain ⟨hstill', hmemory', hfault'⟩ :=
      ih hfault fun b hb => hacts b (List.mem_cons_of_mem a hb)
    exact ⟨hstill.trans hstill', hmemory'.trans hmemory, hfault'⟩

/-- **A fault is permanent.** Once a cycle has failed, and whatever the host does then short of
loading another image, every cycle and every run that is begun fails the same way, and nothing
changes but the timers, the keys and the note that the frame is to be shown. -/
theorem fault_stays (m : Machine) (f : Fault) (hf : m.step.fault = some f)
    (requests : List Request) (hr : ∀ request ∈ requests, request.image? = none) :
    let now := m.after requests
    m.Still now ∧ now.memory = m.memory ∧ now.awaiting = none ∧ now.step = .failure now f ∧
      (∀ times, (now.serve (.step (times + 1))).reply = .steps 0 (some f)) ∧
      (∀ limit, (now.serve (.run (limit + 1))).reply = .failed f) ∧
      ∀ halt limit, (now.run halt (limit + 1)).fault = some f ∧
        (now.run halt (limit + 1)).machine = now := by
  intro now
  have hacts : ∀ a ∈ requests.flatMap Request.acts, a.request.image? = none := by
    rw [← List.filterMap_eq_nil_iff, Request.images_flatMap_acts, List.filterMap_eq_nil_iff]
    exact hr
  obtain ⟨hstill, hmemory, hfault⟩ := fault_perform hf hacts
  rw [← after_eq_perform] at hstill hmemory hfault
  have hruns := run_of_fault hfault
  have hnone := awaiting_of_fault hfault
  have hgoes : now.isWaiting = false := by
    rw [isWaiting, show now.awaiting = none from hnone]
    rfl
  refine ⟨hstill, hmemory, hnone, step_of_fault hfault, ?_, ?_, ?_⟩
  · intro times
    rw [serve, steps, hruns]
    rfl
  · intro limit
    rw [serve, if_neg (by simp [hgoes]), run, hruns]
    rfl
  · intro halt limit
    rw [run, hruns]
    exact ⟨rfl, rfl⟩

/-- A row drawn over the right edge, where it may not be; then a key goes down, the timers fall, an
image is too large and the stream of another breaks off. -/
theorem fault_stays_at_edge :
    let m := (bare { edges := .fault } (.ofList [])).after
      [.load [0x6A, 0x3E, 0xA2, 0x06, 0xDA, 0x01, 0xF0], .step 2]
    let requests := [Request.press 3, .tick 2, .step 4, .load (.replicate 3585 0),
      .loadFrom [.data [0x12], .broken "gone"], .run 2]
    m.step.fault = some (.spriteOutOfBounds 64 0) ∧
      (∀ request ∈ requests, request.image? = none) ∧
      (m.after requests).step.fault = some (.spriteOutOfBounds 64 0) ∧
      (m.after requests).registers = m.registers := by
  intro m requests
  have hfault : m.step.fault = some (.spriteOutOfBounds 64 0) := by decide +kernel
  have hr : ∀ request ∈ requests, request.image? = none := by
    simp [-List.reduceReplicate, requests, Request.image?, Chunk.gather, imageCapacity, Except.map]
  obtain ⟨hstill, -, -, hstep, -⟩ := fault_stays m _ hfault requests hr
  exact ⟨hfault, hr, by rw [hstep]; rfl, hstill.registers⟩

/-! ## Waiting for a key -/

theorem isWaiting_of_awaiting {m : Machine} {x : Register} (h : m.awaiting = some x) :
    m.isWaiting = true := by
  rw [isWaiting, h]
  rfl

/-- A loop counts the cycles a machine waits through, and that is all they leave behind. -/
theorem run_of_isWaiting {m : Machine} (h : m.isWaiting = true) (halt : Machine → Bool)
    (limit count : Nat) :
    Run.cyclesUntil halt limit ⟨m, count, #[], none⟩ =
      ⟨m, count + (if halt m then min 1 limit else limit), #[], none⟩ := by
  induction limit generalizing count with
  | zero => simp [Run.cyclesUntil]
  | succ limit ih =>
    have hstep : Run.step ⟨m, count, #[], none⟩ = ⟨m, count + 1, #[], none⟩ := by
      simp [Run.step, Run.record, step_of_isWaiting h, stepLog, h, Outcome.success]
    rw [Run.cyclesUntil, hstep]
    cases hhalt : halt m with
    | true => simp
    | false =>
      simp only [Option.isSome_none, Bool.or_self, Bool.false_eq_true, if_false, ih, hhalt]
      rw [Nat.add_right_comm, Nat.add_assoc]

theorem waiting_perform {m : Machine} {x : Register} (h : m.awaiting = some x) {acts : List Act}
    (hkeys : ∀ key, .press key ∈ acts → 16 ≤ key.toNat) :
    m.Still (m.perform acts) ∧
      (m.perform acts).memory = (acts.filterMap fun a => a.request.image?).foldl
        (fun memory image => memory.put Memory.programStart image) m.memory := by
  induction acts generalizing m with
  | nil => exact ⟨.refl m, rfl⟩
  | cons a rest ih =>
    have hrest : m.step.machine = m := by
      rw [step_of_isWaiting (isWaiting_of_awaiting h)]
      rfl
    have hstill : m.Still (m.act a) := Still.act hrest fun key ha =>
      .inr (hkeys key (by rw [ha]; exact List.mem_cons_self))
    have hmemory := memory_act_of_rest hrest a
    obtain ⟨hstill', hmemory'⟩ := ih (hstill.awaiting.trans h) fun key hkey =>
      hkeys key (List.mem_cons_of_mem a hkey)
    refine ⟨hstill.trans hstill', ?_⟩
    rw [perform_cons, hmemory', hmemory, List.filterMap_cons]
    cases a.request.image? <;> rfl

/-- A machine waits on, whatever its host asks for short of the key. -/
theorem waiting_after {m : Machine} {x : Register} (h : m.awaiting = some x)
    {requests : List Request} (hkeys : ∀ key, .press key ∈ requests → 16 ≤ key.toNat) :
    m.Still (m.after requests) ∧
      (m.after requests).memory = (requests.filterMap Request.image?).foldl
        (fun memory image => memory.put Memory.programStart image) m.memory := by
  have hacts : ∀ key, .press key ∈ requests.flatMap Request.acts → 16 ≤ key.toNat := by
    intro key hkey
    obtain ⟨request, hrequest, hmem⟩ := List.mem_flatMap.mp hkey
    cases request <;> simp [Request.acts] at hmem
    subst hmem
    exact hkeys _ hrequest
  rw [after_eq_perform, ← Request.images_flatMap_acts]
  exact waiting_perform h hacts

theorem awaiting_act_of_ne_cycle {m : Machine} {a : Act} (ha : a ≠ .cycle)
    (h : m.awaiting = none) : (m.act a).awaiting = none := by
  cases a with
  | cycle => exact absurd rfl ha
  | press key =>
    have hstill : m.Still (m.act (.press key)) := Still.press (.inl h)
    exact hstill.awaiting.trans h
  | load | loadFrom | release | tick | setDelay | tickDelay | acknowledge =>
    rw [← h]
    show Part.awaiting.Same m (m.act _)
    refine m.act_same _ ?_
    simp [Act.touches]

theorem step_of_awaiting_none {m : Machine} (h : m.awaiting = none) :
    m.step = .check m (m.memory.fetch m.pc) m.execute := by
  rw [step, if_neg (by simp [isWaiting, h])]

/-- Only one instruction makes a machine wait. -/
theorem awaiting_step {m : Machine} (h : m.awaiting = none)
    (hi : ∀ x, m.due? ≠ some (.awaitKey x)) : m.step.machine.awaiting = none := by
  have hsame : Part.awaiting.Same m m.step.machine := by
    refine m.step_same (fun i hdue htouch => ?_) (by decide)
    cases i <;> simp [Instruction.touches] at htouch
    exact hi _ hdue
  exact Eq.trans hsame h

/-- Once released, a machine lets no key into a register until it executes that instruction. -/
theorem registers_press_after {m : Machine} (h : m.awaiting = none) {later : List Request}
    (hlater : ∀ moment ∈ m.history later, ∀ x, moment.executed? ≠ some (.awaitKey x))
    (key : UInt8) : ((m.after later).press key).registers = (m.after later).registers := by
  have hlast : (m.after later).awaiting = none :=
    invariant_after (I := fun m => m.awaiting = none) awaiting_act_of_ne_cycle awaiting_step h hlater
  exact (Still.press (.inl hlast)).registers

theorem step_of_awaitKey {m : Machine} {x : Register} (h : m.due? = some (.awaitKey x)) :
    m.step = .success { m with pc := m.pc + 2, awaiting := some x } := by
  rw [step_of_due? h]
  rfl

/-- **Waiting for a key freezes the program, and a key resumes it once.** Until a key goes down that
exists, every cycle succeeds and logs nothing, and only images that are loaded change anything but
the timers, the keys and the note that the frame is to be shown. The key then goes to the register
that waits, the next cycle fetches behind the instruction, and no other key goes to a register until
the program waits again. -/
theorem waits_for_key (m : Machine) (x : Register) (hdue : m.due? = some (.awaitKey x))
    (requests : List Request) (hkeys : ∀ key, .press key ∈ requests → 16 ≤ key.toNat) :
    let now := m.step.machine.after requests
    ({ m with pc := m.pc + 2, awaiting := some x } : Machine).Still now ∧
      now.pc.toNat = m.pc.toNat + 2 ∧
      now.memory = (requests.filterMap Request.image?).foldl
        (fun memory image => memory.put Memory.programStart image) m.memory ∧
      now.step = .success now ∧ now.stepLog = [] ∧
      (∀ times, now.serve (.step times) = ⟨now, .steps times none, []⟩) ∧
      (∀ halt limit, ∃ count, now.run halt limit = ⟨now, count, #[.stopped count], none⟩) ∧
      ∀ key : UInt8, ∀ hkey : key.toNat < 16,
        let released := now.press key
        released = { now.setRegister x key with
          keys := now.keys.set key.toNat true, awaiting := none } ∧
        released.step = .check released (now.memory.fetch (m.pc + 2)) released.execute ∧
        ∀ later, (∀ moment ∈ released.history later, ∀ y, moment.executed? ≠ some (.awaitKey y)) →
          ∀ other, ((released.after later).press other).registers =
            (released.after later).registers := by
  intro now
  have hstart : m.step.machine = { m with pc := m.pc + 2, awaiting := some x } := by
    rw [step_of_awaitKey hdue]
    rfl
  -- The machine that stands still is the one behind the instruction, not the one before it.
  obtain ⟨hstill, hmemory⟩ := waiting_after (m := m.step.machine) (by rw [hstart]) hkeys
  change m.step.machine.Still now at hstill
  change now.memory = _ at hmemory
  rw [hstart] at hstill hmemory
  have hwaiting : now.isWaiting = true := isWaiting_of_awaiting hstill.awaiting
  have hpc : now.pc = m.pc + 2 := hstill.pc
  refine ⟨hstill, by rw [hpc, toNat_pc_add_two hdue], hmemory, step_of_isWaiting hwaiting,
    by rw [stepLog, if_pos hwaiting], ?_, ?_, ?_⟩
  · intro times
    rw [serve, steps, Run.start, run_of_isWaiting hwaiting]
    simp [Answer.ofSteps]
  · intro halt limit
    rw [run, Run.start, run_of_isWaiting hwaiting]
    exact ⟨_, rfl⟩
  · intro key hkey released
    have hreleased := press_of_awaiting hstill.awaiting hkey
    have hnone : released.awaiting = none := by
      show (now.press key).awaiting = none
      rw [hreleased]
    refine ⟨hreleased, ?_, ?_⟩
    · rw [step_of_awaiting_none hnone]
      show Outcome.check released ((now.press key).memory.fetch (now.press key).pc) _ = _
      rw [hreleased, ← hpc]
      rfl
    · intro later hlater other
      exact registers_press_after hnone hlater other

/-- A program that waits at the last word of memory, where it has put the opcode itself. Keys that
do not exist, cycles, the clock and another image leave it there; the next key goes to its register,
only then does a cycle find no word to fetch, and the keys after that go nowhere. -/
theorem waits_for_key_at_end :
    let m := (bare {} (.ofList [])).after
      [.load [0x60, 0xF5, 0x61, 0x0A, 0xAF, 0xFE, 0xF1, 0x55, 0x1F, 0xFE], .step 5]
    let requests := [Request.press 16, .step 3, .tick 1, .release 2, .load [0x12, 0x34], .run 4]
    let now := m.step.machine.after requests
    m.due? = some (.awaitKey 5) ∧ (∀ key, .press key ∈ requests → 16 ≤ key.toNat) ∧
      now.step = .success now ∧
      now.press 7 = { now.setRegister 5 7 with
        keys := now.keys.set (7 : UInt8).toNat true (by decide), awaiting := none } ∧
      (now.press 7).step = .failure (now.press 7) (.addressOutOfRange 0x1000) ∧
      (((now.press 7).after [.press 3]).press 4).registers =
        ((now.press 7).after [.press 3]).registers := by
  intro m requests now
  have hm : m.due? = some (.awaitKey 5) ∧ m.pc = 0x0FFE := by decide +kernel
  have hkeys : ∀ key, .press key ∈ requests → 16 ≤ key.toNat := by simp [requests]
  have hmissing : ∀ memory : Memory,
      memory.fetch (0x0FFE + 2) = .error (.addressOutOfRange 0x1000) := by
    simp [Memory.fetch_eq, Memory.size]
  obtain ⟨-, -, -, hstep, -, -, -, hpress⟩ := waits_for_key m 5 hm.1 requests hkeys
  obtain ⟨hreleased, hfetch, hlater⟩ := hpress 7 (by decide)
  rw [hm.2, hmissing, Outcome.check_error] at hfetch
  refine ⟨hm.1, hkeys, hstep, hreleased, hfetch, ?_⟩
  exact hlater [.press 3] (by simp [history, cyclesOf, Moment.executed?]) 4

end Machine
end ChipEight
