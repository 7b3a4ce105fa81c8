import ChipEight.Proofs.BenchSimulation
import ChipEight.Proofs.Raw.Safety

/-!
The stream of random bytes. An opcode of the family `C` takes one byte and every other opcode
none, so how far a machine is in the stream can be counted off its history
(`Machine.random_of_leads`), and the byte an opcode gets is the one at the number of such opcodes
before it. Two machines that differ only in bytes that are not yet taken do the same until one of
these is taken (`Machine.simulation_redealt`).
-/
namespace ChipEight

/-- Whether an opcode takes a random byte. -/
def Opcode.takesByte (op : Opcode) : Bool :=
  op.family.val == 0xC

theorem Opcode.takesByte_iff {op : Opcode} : op.takesByte = true ↔ op.family.val = 0xC :=
  beq_iff_eq

namespace Instruction

theorem decode?_of_takesByte {op : Opcode} (h : op.takesByte = true) :
    decode? op = some (.random op.x op.byte) := by
  rw [decode?, Opcode.takesByte_iff.mp h]
  rfl

theorem ofLowByte?_ne_random (x y : Register) (low mask : UInt8) :
    ofLowByte? x low ≠ some (.random y mask) := by
  unfold ofLowByte?
  split <;> simp

/-- Only an opcode that takes a byte stands for an instruction that does. -/
theorem takesByte_of_decode? {op : Opcode} {x : Register} {mask : UInt8}
    (h : decode? op = some (.random x mask)) : op.takesByte = true := by
  by_cases hfamily : op.family.val = 0xC
  · exact Opcode.takesByte_iff.mpr hfamily
  · unfold decode? at h
    split at h <;> grind [ofLowByte?_ne_random, Option.map_eq_some_iff]

theorem random_not_mem_touches {i : Instruction} (h : ∀ x mask, i ≠ .random x mask) :
    Part.random ∉ i.touches := by
  cases i with
  | random x mask => exact absurd rfl (h x mask)
  | _ => simp [touches]

end Instruction

namespace Machine

/-- Whether an attempt takes a random byte. -/
def takesByte (m : Machine) (source : Source) : Bool :=
  (m.opcode? source).any Opcode.takesByte

end Machine

/-- Whether a moment is an attempt that takes a random byte. -/
def BenchMoment.takesByte : BenchMoment → Bool
  | attempt source start .. => start.takesByte source
  | answer .. => false

/-! ## How far the stream is used up -/

namespace Machine

/-- An opcode that takes a byte does not fail, and leaves the byte under its mask in its
register. -/
theorem execute_of_takesByte (m : Machine) {op : Opcode} (h : op.takesByte = true) :
    m.execute op =
      .success { m.setRegister op.x (m.random.next &&& op.byte) with
        random := m.random.advance
        pc := m.pc + 2 } := by
  rw [execute, Instruction.decode?_of_takesByte h]
  rfl

theorem random_execute (m : Machine) (op : Opcode) :
    (m.execute op).machine.random = if op.takesByte then m.random.advance else m.random := by
  cases htakes : op.takesByte with
  | true =>
    rw [execute_of_takesByte m htakes]
    rfl
  | false =>
    show Part.random.Same m (m.execute op).machine
    cases hd : Instruction.decode? op with
    | some i =>
      have hi : ∀ x mask, i ≠ .random x mask := by
        rintro x mask rfl
        rw [Instruction.takesByte_of_decode? hd] at htakes
        cases htakes
      rw [execute, hd]
      exact i.execute_same m (Instruction.random_not_mem_touches hi) (by simp)
    | none =>
      cases hp : m.config.unknown with
      | skip => rw [execute_of_skip hd hp]; rfl
      | fail => rw [execute_of_fail hd hp]; rfl

theorem random_attempt (m : Machine) (source : Source) :
    (m.attempt source).machine.random =
      if m.takesByte source then m.random.advance else m.random := by
  cases hop : m.opcode? source with
  | none =>
    rw [machine_attempt_of_none hop, takesByte, hop]
    rfl
  | some op =>
    rw [attempt_of_opcode? hop, random_execute, takesByte, hop]
    rfl

theorem random_withMemory (m : Machine) (memory : Memory) :
    (m.withMemory memory).random = m.random := rfl

theorem random_store (m : Machine) (written : Except Fault Memory) :
    (m.store written).machine.random = m.random := by
  have hsame : Part.random.Same m (m.store written).machine := Outcome.check_same fun _ => rfl
  exact hsame

/-- Apart from attempts, nothing on the bench reaches the stream. -/
theorem random_serveBench {request : BenchRequest} (h : request.goes = false) (m : Machine) :
    (m.serveBench request).machine.random = m.random := by
  cases request with
  | execute => cases h
  | host request =>
    have hsame : Part.random.Same m (m.serve request).machine := by
      refine serve_same h ?_ m
      cases request <;> simp [Request.touches]
    exact hsame
  | write =>
    rw [serveBench]
    split
    · rw [Answer.machine_ofOutcome]
      exact m.random_store _
    · rfl
  | writeByte =>
    rw [serveBench, Answer.machine_ofOutcome]
    exact m.random_store _
  | toggle x y =>
    rw [serveBench]
    split <;> rfl
  | loadFont => exact m.random_withMemory _
  | clear | markDirty => rfl

/-- Behind some moments, as many more bytes have been drawn as attempts took one. -/
theorem random_of_leads {m n : Machine} {moments : List BenchMoment} (h : m.BenchLeads moments n) :
    n.random = ⟨m.random.bytes, m.random.drawn + moments.countP BenchMoment.takesByte⟩ := by
  induction h with
  | stay => rfl
  | @attempt m n source moments _ ih =>
    have htakes : (m.nextAttempt source).takesByte = m.takesByte source := rfl
    rw [ih, random_attempt, List.countP_cons, htakes]
    cases m.takesByte source with
    | true => simp [RandomBytes.advance, Nat.add_assoc, Nat.add_comm 1]
    | false => simp
  | @served m n request moments hgoes _ ih =>
    have htakes : (BenchMoment.answer request (m.serveBench request)).takesByte = false := rfl
    rw [ih, random_serveBench hgoes, List.countP_cons_of_neg (by simp [htakes])]
  | @summed m n request answer moments _ _ ih =>
    have htakes : (BenchMoment.answer request answer).takesByte = false := rfl
    rw [ih, List.countP_cons_of_neg (by simp [htakes])]

/-! ## Other bytes -/

/-- The same machine with other bytes to take from. -/
def withBytes (m : Machine) (bytes : Array UInt8) : Machine :=
  { m with random := { m.random with bytes } }

/-- The second machine is the first with other bytes. -/
structure OtherBytes (bytes : Array UInt8) (m m' : Machine) : Prop where
  same : m' = m.withBytes bytes

end Machine

open Machine (OtherBytes)

namespace Instruction
variable {bytes : Array UInt8}

theorem next_withBytes (i : Instruction) (m : Machine) : i.next (m.withBytes bytes) = i.next m := by
  cases i with
  | skip test => cases test <;> rfl
  | _ => rfl

theorem effect_withBytes (i : Instruction) (m : Machine)
    (h : ∀ x mask, i = .random x mask → (m.withBytes bytes).random.next = m.random.next) :
    (i.effect m).Agree (OtherBytes bytes) (i.effect (m.withBytes bytes)) := by
  cases i with
  | leave =>
    have hcalls : (m.withBytes bytes).calls = m.calls := rfl
    rw [effect, effect, hcalls]
    cases m.calls.pop? <;> exact ⟨⟨rfl⟩, rfl⟩
  | call target =>
    have hpush : (m.withBytes bytes).calls.push? ((m.withBytes bytes).pc + 2) =
        m.calls.push? (m.pc + 2) := rfl
    rw [effect, effect, hpush]
    cases m.calls.push? (m.pc + 2) <;> exact ⟨⟨rfl⟩, rfl⟩
  | combine how x y => cases how <;> exact .success ⟨rfl⟩
  | draw x y rows =>
    exact .check rfl ⟨rfl⟩ fun sprite _ => .check rfl ⟨rfl⟩ fun points _ => .success ⟨rfl⟩
  | random x mask =>
    rw [effect, effect, h x mask rfl]
    exact .success ⟨rfl⟩
  | advance x =>
    have hoverflow : (m.withBytes bytes).config.overflow = m.config.overflow := rfl
    rw [effect, effect, Machine.advanceIndex, Machine.advanceIndex, hoverflow]
    cases m.config.overflow <;> exact .success ⟨rfl⟩
  | storeDecimal | save => exact .check rfl ⟨rfl⟩ fun memory _ => .success ⟨rfl⟩
  | restore last => exact .check rfl ⟨rfl⟩ fun values _ => .success ⟨rfl⟩
  | jump | jumpBy | skip => exact .success ⟨rfl⟩
  | clear | set | increase | point | readDelay | awaitKey | setDelay | setSound | pointDigit =>
    exact .success ⟨rfl⟩

theorem execute_withBytes (i : Instruction) (m : Machine)
    (h : ∀ x mask, i = .random x mask → (m.withBytes bytes).random.next = m.random.next) :
    (i.execute m).Agree (OtherBytes bytes) (i.execute (m.withBytes bytes)) := by
  rw [execute, execute, next_withBytes]
  refine (i.effect_withBytes m h).onSuccess ?_
  rintro n _ ⟨rfl⟩
  exact ⟨rfl⟩

end Instruction

namespace Machine
variable {bytes : Array UInt8}

theorem execute_withBytes (m : Machine) (op : Opcode)
    (h : op.takesByte = true → (m.withBytes bytes).random.next = m.random.next) :
    (m.execute op).Agree (OtherBytes bytes) ((m.withBytes bytes).execute op) := by
  cases hd : Instruction.decode? op with
  | some i =>
    rw [execute, execute, hd]
    refine i.execute_withBytes m ?_
    rintro x mask rfl
    exact h (Instruction.takesByte_of_decode? hd)
  | none =>
    cases hp : m.config.unknown with
    | skip =>
      rw [execute_of_skip hd hp, execute_of_skip hd (m := m.withBytes bytes) hp]
      exact .success ⟨rfl⟩
    | fail =>
      rw [execute_of_fail hd hp, execute_of_fail hd (m := m.withBytes bytes) hp]
      exact .failure ⟨rfl⟩

/-- An attempt reads the bytes only if it takes one, and then it reads that one only. -/
theorem attempt_withBytes (m : Machine) (source : Source)
    (h : m.takesByte source = true → (m.withBytes bytes).random.next = m.random.next) :
    (m.attempt source).Agree (OtherBytes bytes) ((m.withBytes bytes).attempt source) := by
  cases source with
  | given op => exact m.execute_withBytes op h
  | fetched =>
    have hwaiting : (m.withBytes bytes).isWaiting = m.isWaiting := rfl
    show m.step.Agree _ (m.withBytes bytes).step
    rw [step, step, hwaiting]
    cases hw : m.isWaiting with
    | true => exact .success ⟨rfl⟩
    | false =>
      refine .check rfl ⟨rfl⟩ fun op hop => m.execute_withBytes op fun htakes => h ?_
      rw [takesByte, opcode?, hw, hop]
      exact htakes

theorem attemptLog_withBytes (m : Machine) (source : Source) :
    (m.withBytes bytes).attemptLog source = m.attemptLog source := by
  cases source <;> rfl

theorem press_withBytes (m : Machine) (key : UInt8) :
    (m.withBytes bytes).press key = (m.press key).withBytes bytes := by
  by_cases hkey : key.toNat < 16
  · cases hw : m.awaiting with
    | none =>
      rw [press_of_awaiting_none hw hkey, press_of_awaiting_none (m := m.withBytes bytes) hw hkey]
      rfl
    | some x =>
      rw [press_of_awaiting hw hkey, press_of_awaiting (m := m.withBytes bytes) hw hkey]
      rfl
  · rw [press_of_not_key hkey, press_of_not_key hkey]

theorem release_withBytes (m : Machine) (key : UInt8) :
    (m.withBytes bytes).release key = (m.release key).withBytes bytes := by
  rw [release, release]
  split <;> rfl

theorem serve_withBytes (m : Machine) {request : Request} (hgoes : request.goes = false) :
    (m.serve request).Agree (OtherBytes bytes) ((m.withBytes bytes).serve request) := by
  cases request with
  | step | run => cases hgoes
  | load | loadFrom =>
    exact .ofOutcome (.check rfl ⟨rfl⟩ fun memory _ => .success ⟨rfl⟩) _
  | press key => exact .tell ⟨m.press_withBytes key⟩ _
  | release key => exact .tell ⟨m.release_withBytes key⟩ _
  | tick times =>
    refine .tell ⟨?_⟩ _
    rw [ticks_eq, ticks_eq m]
    rfl
  | readDelay | setDelay | tickDelay | acknowledge | frame | picture => exact .tell ⟨rfl⟩ _
  | readBlock =>
    rw [serve, serve]
    split
    · exact .look ⟨rfl⟩ rfl _
    · exact .tell ⟨rfl⟩ _
  | readByte | fetch => exact .look ⟨rfl⟩ rfl _
  | cell x y =>
    rw [serve, serve]
    cases Frame.point? x y <;> exact .tell ⟨rfl⟩ _
  | register x =>
    have hregisters : (m.withBytes bytes).registers = m.registers := rfl
    rw [serve, serve, hregisters]
    cases m.registers[x]? <;> exact .tell ⟨rfl⟩ _

theorem serveBench_withBytes (m : Machine) {request : BenchRequest} (hgoes : request.goes = false) :
    (m.serveBench request).Agree (OtherBytes bytes) ((m.withBytes bytes).serveBench request) := by
  cases request with
  | execute => cases hgoes
  | host request => exact m.serve_withBytes hgoes
  | write =>
    rw [serveBench, serveBench]
    split
    · exact .ofOutcome (.check rfl ⟨rfl⟩ fun memory _ => .success ⟨rfl⟩) _
    · exact .tell ⟨rfl⟩ _
  | writeByte => exact .ofOutcome (.check rfl ⟨rfl⟩ fun memory _ => .success ⟨rfl⟩) _
  | toggle x y =>
    rw [serveBench, serveBench]
    cases Frame.point? x y <;> exact ⟨⟨rfl⟩, rfl, rfl⟩
  | loadFont | clear | markDirty => exact .tell ⟨rfl⟩ _

/-! ### Bytes that are the same up to some place -/

/-- The second machine is the first with other bytes, of which at most `limit` have been drawn. -/
structure Redealt (bytes bytes' : List UInt8) (limit : Nat) (m m' : Machine) : Prop
    extends OtherBytes bytes'.toArray m m' where
  bytes : m.random.bytes = bytes.toArray
  drawn : m.random.drawn ≤ limit

/-- An attempt that takes the byte at a place of the stream. -/
structure TakesAt (place : Nat) (source : Source) (m : Machine) : Prop where
  takes : m.takesByte source = true
  drawn : m.random.drawn = place

theorem simulation_redealt {bytes bytes' : List UInt8} {limit : Nat}
    (h : ∀ k < limit, bytes'[k]?.getD 0 = bytes[k]?.getD 0) :
    BenchSimulation (Redealt bytes bytes' limit) (TakesAt limit) where
  isWaiting := by
    rintro m _ ⟨⟨rfl⟩, -, -⟩
    rfl
  attempt {source m m'} hm hnot := by
    obtain ⟨⟨rfl⟩, hbytes, hdrawn⟩ := hm
    have hbelow (htakes : m.takesByte source = true) : m.random.drawn < limit :=
      Nat.lt_of_le_of_ne hdrawn fun hlast => hnot ⟨htakes, hlast⟩
    have hnext (htakes : m.takesByte source = true) :
        (m.withBytes bytes'.toArray).random.next = m.random.next := by
      simpa [RandomBytes.next, RandomBytes.byte, withBytes, hbytes] using h _ (hbelow htakes)
    obtain ⟨hother, hfault⟩ := m.attempt_withBytes source hnext
    refine ⟨⟨⟨hother, ?_, ?_⟩, hfault⟩, m.attemptLog_withBytes source⟩
    · rw [random_attempt]
      split <;> exact hbytes
    · rw [random_attempt]
      split
      · rename_i htakes
        exact hbelow htakes
      · exact hdrawn
  serve {request m m'} hm hgoes := by
    obtain ⟨⟨rfl⟩, hbytes, hdrawn⟩ := hm
    obtain ⟨hother, hreply, hlog⟩ := m.serveBench_withBytes hgoes
    refine ⟨⟨hother, ?_, ?_⟩, hreply, hlog⟩
    · rw [random_serveBench hgoes, hbytes]
    · rw [random_serveBench hgoes]
      exact hdrawn

end Machine

/-! ## Whatever is asked of a machine -/

namespace Assembly

theorem random_machine (how : Assembly) (config : Config) (random : RandomBytes) :
    (how.machine config random).random = random := by
  cases how <;> rfl

theorem redealt_machine (how : Assembly) (config : Config) (bytes bytes' : List UInt8)
    (limit : Nat) :
    Machine.Redealt bytes bytes' limit (how.machine config (.ofList bytes))
      (how.machine config (.ofList bytes')) := by
  cases how <;> exact ⟨⟨rfl⟩, rfl, Nat.zero_le limit⟩

/-- Before an attempt as many bytes have been drawn as attempts before it took one. -/
theorem random_at {how : Assembly} {config : Config} {bytes : List UInt8}
    {requests : List BenchRequest} {before behind : List BenchMoment} {source : Source}
    {start : Machine} {outcome : Outcome} {log : List Log.Entry}
    (h : (how.machine config (.ofList bytes)).benchHistory requests =
      before ++ .attempt source start outcome log :: behind) :
    start.random = ⟨bytes.toArray, before.countP BenchMoment.takesByte⟩ ∧
      outcome = start.attempt source := by
  have hleads := Machine.BenchLeads.benchHistory (how.machine config (.ofList bytes)) requests
  rw [h] at hleads
  obtain ⟨hbefore, houtcome⟩ := hleads.to_attempt
  refine ⟨?_, houtcome⟩
  rw [Machine.random_of_leads hbefore, how.random_machine]
  simp [RandomBytes.ofList]

/-- **Random bytes are taken in order, one by each opcode that asks for one.** However a machine
came about, and whatever was asked of it since, it has taken as many bytes as it has executed
opcodes of the family `C`, whatever their mask. Each of them left its register with the next byte of
the list, zero behind its end, under its mask. So with another list that is the same up to some
place, the history is the same until the byte at that place is taken. -/
theorem random_bytes_in_order (how : Assembly) (config : Config) (bytes : List UInt8)
    (requests : List BenchRequest) :
    let m := how.machine config (.ofList bytes)
    let past := m.benchHistory requests
    (m.afterBench requests).random.drawn = past.countP BenchMoment.takesByte ∧
      (∀ before source start outcome log behind,
        past = before ++ .attempt source start outcome log :: behind →
          start.random.drawn = before.countP BenchMoment.takesByte ∧
          ∀ op, start.opcode? source = some op → op.family.val = 0xC →
            outcome.fault = none ∧
              outcome.machine.register op.x =
                (bytes[before.countP BenchMoment.takesByte]?.getD 0) &&& op.byte) ∧
      ∀ (limit : Nat) (bytes' : List UInt8),
        (∀ k < limit, bytes'[k]?.getD 0 = bytes[k]?.getD 0) →
          let m' := how.machine config (.ofList bytes')
          let past' := m'.benchHistory requests
          let R := Machine.Redealt bytes bytes' limit
          AgreeUpTo (BenchMoment.Part R (Machine.TakesAt limit)) (BenchMoment.Agree R)
              (R (m.afterBench requests) (m'.afterBench requests)) past past' ∧
            (past.countP BenchMoment.takesByte ≤ limit →
              List.Forall₂ (BenchMoment.Agree R) past past' ∧
                R (m.afterBench requests) (m'.afterBench requests)) := by
  intro m past
  have hleads : m.BenchLeads past (m.afterBench requests) := .benchHistory m requests
  refine ⟨?_, ?_, ?_⟩
  · rw [Machine.random_of_leads hleads, how.random_machine]
    exact Nat.zero_add _
  · intro before source start outcome log behind hpast
    obtain ⟨hrandom, rfl⟩ := random_at hpast
    refine ⟨by rw [hrandom], fun op hop hfamily => ?_⟩
    have hnext : start.random.next = bytes[before.countP BenchMoment.takesByte]?.getD 0 := by
      simp [RandomBytes.next, RandomBytes.byte, hrandom]
    rw [Machine.attempt_of_opcode? hop,
      start.execute_of_takesByte (Opcode.takesByte_iff.mpr hfamily), ← hnext]
    refine ⟨rfl, ?_⟩
    show (start.setRegister op.x (start.random.next &&& op.byte)).register op.x = _
    rw [Machine.register_setRegister, if_pos rfl]
  · intro limit bytes' hsame m' past' R
    have hagree := (Machine.simulation_redealt hsame).benchHistory
      (how.redealt_machine config bytes bytes' limit) requests
    refine ⟨hagree, fun hcount => hagree.toEnd ?_⟩
    -- An attempt at which the machines part would have taken one byte too many.
    rintro moment hmem other ⟨-, htakes, hdrawn⟩
    rename_i source start _
    obtain ⟨before, behind, hpast⟩ := List.append_of_mem hmem
    obtain ⟨hrandom, -⟩ := random_at hpast
    have hbefore : before.countP BenchMoment.takesByte = limit := by rw [← hdrawn, hrandom]
    have hone : (start.nextAttempt source).takesByte = true := htakes
    have hmore : past.countP BenchMoment.takesByte =
        limit + (behind.countP BenchMoment.takesByte + 1) := by
      rw [show past = _ from hpast, List.countP_append, List.countP_cons_of_pos hone, hbefore]
    omega

/-- A list of one byte. Two cycles take from it, one of them under a mask of no bits; then the
machine waits for a key, and the cycles of that time take nothing. On the bench it takes one more,
and then an opcode fails. With a list that goes on with two zeros the machine is the same. -/
theorem random_bytes_in_order_past_waiting :
    let requests : List BenchRequest :=
      [.host (.load [0xC0, 0x0F, 0xC1, 0x00, 0xF3, 0x0A]), .host (.step 5),
        .execute [⟨0xC2FF⟩, ⟨0x00EE⟩] 2]
    let m := parts.machine {} (.ofList [0xF7])
    let m' := parts.machine {} (.ofList [0xF7, 0, 0, 9])
    let loaded := (m.serveBench (.host (.load [0xC0, 0x0F, 0xC1, 0x00, 0xF3, 0x0A]))).machine
    (m.afterBench requests).random.drawn = 3 ∧
      loaded.step.machine.register 0 = 0x07 ∧
      m'.afterBench requests = (m.afterBench requests).withBytes #[0xF7, 0, 0, 9] := by
  intro requests m m' loaded
  have hcount : (m.benchHistory requests).countP BenchMoment.takesByte = 3 := by decide +kernel
  obtain ⟨hdrawn, hbytes, hother⟩ := random_bytes_in_order parts {} [0xF7] requests
  have hm : m = parts.machine {} (.ofList [0xF7]) := rfl
  rw [← hm] at hdrawn hbytes hother
  refine ⟨hdrawn.trans hcount, ?_, ?_⟩
  · have hsplit : m.benchHistory requests =
        [.answer _ (m.serveBench (.host (.load [0xC0, 0x0F, 0xC1, 0x00, 0xF3, 0x0A])))] ++
          loaded.nextAttempt .fetched :: (m.benchHistory requests).drop 2 := rfl
    have hop : loaded.opcode? .fetched = some ⟨0xC00F⟩ := by decide +kernel
    obtain ⟨-, hregister⟩ := (hbytes _ _ _ _ _ _ hsplit).2 _ hop (by decide)
    rw [show Opcode.x ⟨0xC00F⟩ = 0 from rfl] at hregister
    rw [show loaded.step = loaded.attempt .fetched from rfl, hregister]
    decide
  · have hsame : ∀ k < 3, ([0xF7, 0, 0, 9] : List UInt8)[k]?.getD 0 = [0xF7][k]?.getD 0 := by
      decide
    exact ((hother 3 [0xF7, 0, 0, 9] hsame).2 (Nat.le_of_eq hcount)).2.same

end Assembly
end ChipEight
