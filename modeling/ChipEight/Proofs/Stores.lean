import ChipEight.Proofs.ByteMap
import ChipEight.Proofs.History

/-!
What a program stores. Two instructions write to memory, and each of them writes one block of bytes
where the index register points (`Instruction.block?`). An address holds the byte that the last
block to reach it has put there, be it stored by the program or loaded by the host
(`Machine.byte_of_leads`). So a program that stores into itself executes what it has stored.
-/
namespace ChipEight

/-! ## Blocks -/

/-- Bytes that are written to memory, and the address of the first of them. -/
structure Memory.Block where
  start : Nat
  bytes : List UInt8

/-- The byte a block puts at an address, if it reaches the address. -/
def Memory.Block.byte? (b : Block) (a : Nat) : Option UInt8 :=
  if b.start ≤ a then b.bytes[a - b.start]? else none

theorem Memory.byte_put_block (m : Memory) (b : Block) {a : Nat} (ha : a < size) :
    (m.put b.start b.bytes).byte a = (b.byte? a).getD (m.byte a) := by
  rw [byte_put, Block.byte?]
  by_cases hstart : b.start ≤ a
  · rw [if_pos hstart]
    by_cases hend : a < b.start + b.bytes.length
    · have hin : a - b.start < b.bytes.length := by omega
      rw [if_pos ⟨hstart, hend, ha⟩, List.getElem?_eq_getElem hin]
      rfl
    · rw [if_neg (by omega), List.getElem?_eq_none (by omega)]
      rfl
  · rw [if_neg (by omega), if_neg hstart]
    rfl

/-! ## Instructions that store -/

/-- The block an instruction stores: the decimal digits of a register, or the registers up to and
including one. -/
def Instruction.block? (m : Machine) : Instruction → Option Memory.Block
  | storeDecimal x => some ⟨m.index.toNat, decimalDigits (m.register x)⟩
  | save last => some ⟨m.index.toNat, ((List.finRange 16).take (last.val + 1)).map m.register⟩
  | _ => none

theorem take_registers (m : Machine) (count : Nat) :
    m.registers.toList.take count = ((List.finRange 16).take count).map m.register := by
  have hregisters : m.registers.toList = (List.finRange 16).map m.register := by
    refine List.ext_getElem ?_ fun k _ _ => ?_
    · rw [Vector.length_toList, List.length_map, List.length_finRange]
    · rw [Vector.getElem_toList, List.getElem_map, List.getElem_finRange]
      rfl
  rw [hregisters, List.map_take]

/-- The three bytes of a decimal number are its digits. -/
theorem decimalDigits_spec (value : UInt8) :
    ∃ hundreds tens units : UInt8, decimalDigits value = [hundreds, tens, units] ∧
      hundreds.toNat ≤ 9 ∧ tens.toNat ≤ 9 ∧ units.toNat ≤ 9 ∧
      100 * hundreds.toNat + 10 * tens.toNat + units.toNat = value.toNat := by
  have := value.toNat_lt
  refine ⟨value / 100, value / 10 % 10, value % 10, rfl, ?_⟩
  simp only [UInt8.toNat_div, UInt8.toNat_mod, UInt8.reduceToNat]
  omega

/-- An instruction that succeeds writes its block to memory, and nothing else. -/
theorem Instruction.memory_effect {i : Instruction} {m : Machine}
    (hok : (i.effect m).fault = none) :
    (i.effect m).machine.memory =
      (i.block? m).elim m.memory fun b => m.memory.put b.start b.bytes := by
  have hwrites : ∀ data hend, (m.store (m.memory.write m.index data hend)).fault = none →
      (m.store (m.memory.write m.index data hend)).machine.memory =
        m.memory.put m.index.toNat data := by
    intro data hend hok
    rw [Memory.write_eq] at hok ⊢
    split at hok
    · rename_i hrange
      rw [if_pos hrange]
      rfl
    · cases hok
  cases i with
  | storeDecimal x => exact hwrites _ _ hok
  | save last =>
    rw [block?, ← take_registers]
    exact hwrites _ _ hok
  | _ =>
    show Part.memory.Same m _
    refine effect_same _ m ?_
    simp [touches]

/-! ## Histories -/

namespace Moment

/-- The block a moment stores, if it is a cycle that does and succeeds. -/
def stored? : Moment → Option Memory.Block
  | .cycle start outcome _ =>
      if outcome.fault = none then start.due?.bind (·.block? start) else none
  | .answer .. => none

/-- The block that is written to memory at a moment, by the program or by its host. -/
def written? : Moment → Option Memory.Block
  | .answer request _ => request.image?.map fun image => ⟨Memory.programStart, image⟩
  | x => x.stored?

/-- The byte that was stored at an address last, if these moments store one there. -/
def lastStored? (past : List Moment) (a : Nat) : Option UInt8 :=
  (past.filterMap fun x => x.stored?.bind (·.byte? a)).getLast?

end Moment

namespace Machine

theorem memory_step (m : Machine) :
    m.step.machine.memory =
      m.nextCycle.stored?.elim m.memory fun b => m.memory.put b.start b.bytes := by
  rw [nextCycle, Moment.stored?]
  cases hfault : m.step.fault with
  | some f =>
    rw [(m.step_failsCleanly f hfault).1, if_neg (by simp)]
    rfl
  | none =>
    rw [if_pos rfl]
    cases hdue : m.due? with
    | none =>
      have hsame : Part.memory.Same m m.step.machine := m.step_same (by simp [hdue]) (by decide)
      exact hsame
    | some i =>
      rw [step_of_due? hdue, Instruction.execute] at hfault ⊢
      rw [Outcome.fault_onSuccess] at hfault
      rw [Outcome.onSuccess_of_none hfault]
      exact Instruction.memory_effect hfault

/-- Of all that a host asks for between cycles, only an image changes memory. -/
theorem memory_serve {request : Request} (h : request.goes = false) (m : Machine) :
    (m.serve request).machine.memory =
      request.image?.elim m.memory fun image => m.memory.put Memory.programStart image := by
  cases request with
  | load image => exact m.memory_act_of_ne_cycle (a := .load image) (by simp)
  | loadFrom stream => exact m.memory_act_of_ne_cycle (a := .loadFrom stream) (by simp)
  | step | run => cases h
  | _ =>
    show Part.memory.Same m _
    refine serve_same h ?_ m
    simp [Request.touches]

theorem tells_byte {a : Nat} (ha : a < Memory.size) :
    Tells (fun m => m.memory.byte a)
      fun b x => (x.written?.bind (·.byte? a)).getD b where
  cycle m := by
    rw [memory_step]
    show _ = (m.nextCycle.stored?.bind (·.byte? a)).getD (m.memory.byte a)
    cases m.nextCycle.stored? with
    | none => rfl
    | some b => exact m.memory.byte_put_block b ha
  served m request h := by
    rw [memory_serve h, Moment.written?]
    cases request.image? with
    | none => rfl
    | some image => exact m.memory.byte_put_block ⟨_, image⟩ ha
  summed b request h answer := by
    cases request with
    | step | run => rfl
    | _ => cases h

/-- Each address holds the byte that was written there last. -/
theorem byte_of_leads {m n : Machine} {moments : List Moment} (hleads : m.Leads moments n) {a : Nat}
    (ha : a < Memory.size) :
    n.memory.byte a =
      (moments.filterMap fun x => x.written?.bind (·.byte? a)).getLast?.getD (m.memory.byte a) := by
  rw [← foldl_getD_eq_getLast?]
  exact (tells_byte ha).foldl hleads

/-! ## Without images -/

/-- The byte at an address after these moments, if memory changes only by what they store. -/
def heldByte (m : Machine) (past : List Moment) (a : Nat) : UInt8 :=
  (Moment.lastStored? past a).getD (m.memory.byte a)

/-- As long as the host loads nothing, an address holds the byte that was stored there last. -/
theorem byte_eq_heldByte {m n : Machine} {moments : List Moment} (hleads : m.Leads moments n)
    (hload : ∀ request answer, .answer request answer ∈ moments → request.image? = none) {a : Nat}
    (ha : a < Memory.size) : n.memory.byte a = m.heldByte moments a := by
  have hstored : moments.filterMap (fun x => x.written?.bind (·.byte? a)) =
      moments.filterMap fun x => x.stored?.bind (·.byte? a) := by
    refine List.filterMap_congr fun x hx => ?_
    cases x with
    | cycle => rfl
    | answer request answer =>
      rw [Moment.written?, hload request answer hx]
      rfl
  rw [byte_of_leads hleads ha, hstored]
  rfl

/-- **Memory changes only by what the program stores, and the last store counts.** As long as the
host loads no image, whatever else it does: each address holds the byte that the last of the
successful stores to reach it has put there, or the byte it held at first. So does each address that
a cycle fetches its opcode from, and a program that stores into itself executes what it stored. -/
theorem memory_holds_last_stored (m : Machine) (requests : List Request)
    (hload : ∀ request ∈ requests, request.image? = none) :
    let past := m.history requests
    (∀ a < Memory.size, (m.after requests).memory.byte a = m.heldByte past a) ∧
      (∀ before start outcome log behind, past = before ++ .cycle start outcome log :: behind →
        start.isWaiting = false → start.pc.toNat + 2 ≤ Memory.size →
          ∃ op : Opcode,
            op.word.toNat =
                256 * (m.heldByte before start.pc.toNat).toNat +
                  (m.heldByte before (start.pc.toNat + 1)).toNat ∧
              outcome = start.execute op) ∧
      ∀ value, ∃ hundreds tens units : UInt8,
        decimalDigits value = [hundreds, tens, units] ∧
          hundreds.toNat ≤ 9 ∧ tens.toNat ≤ 9 ∧ units.toNat ≤ 9 ∧
          100 * hundreds.toNat + 10 * tens.toNat + units.toNat = value.toNat := by
  intro past
  have hanswers : ∀ request answer, .answer request answer ∈ past → request.image? = none := by
    intro request answer hmem
    rcases exists_of_mem_history hmem with ⟨n, hcycle⟩ | ⟨asked, hasked, n, hanswer⟩
    · cases hcycle
    · cases hanswer
      exact hload request hasked
  have hleads : m.Leads past (m.after requests) := .history m requests
  refine ⟨fun a ha => byte_eq_heldByte hleads hanswers ha, ?_, decimalDigits_spec⟩
  intro before start outcome log behind hpast hgoing hrange
  rw [hpast] at hleads
  obtain ⟨hbefore, rfl, -⟩ := hleads.to_cycle
  have hheld : ∀ a < Memory.size, start.memory.byte a = m.heldByte before a := fun a ha =>
    byte_eq_heldByte hbefore (fun request answer hmem => hanswers request answer (by
      rw [hpast]
      exact List.mem_append_left _ hmem)) ha
  refine ⟨⟨start.memory.word start.pc.toNat⟩, ?_, ?_⟩
  · rw [← hheld _ (by omega), ← hheld _ (by omega)]
    exact start.memory.toNat_word start.pc.toNat
  · refine step_of_ok hgoing ?_
    rw [Memory.fetch_eq, if_pos hrange]

/-- A program that stores the digits of a number and lays two registers over the first two of them,
which makes them its next opcode; a later store finds no room. -/
theorem memory_holds_last_stored_in_itself :
    let m : Machine :=
      { (bare {} (.ofList [])).after
          [.load [0xF0, 0x33, 0xF1, 0x55, 0x00, 0x00, 0x00, 0x00, 0xF1, 0x55]] with
        registers := .ofFn fun x => if x = 0 then 0xAF else 0xFF
        index := 0x204 }
    let requests := [Request.step 2, .step 1, .press 3, .loadFrom [.broken "gone"], .step 2]
    let changed := m.after [.step 2]
    let now := m.after requests
    ((∀ request ∈ requests, request.image? = none) ∧ m.memory.word changed.pc.toNat = 0 ∧
        now.step.fault = some (.addressOutOfRange 0x1000)) ∧
      now.memory.byte 0x204 = 0xAF ∧ now.memory.byte 0x206 = 5 ∧ now.memory.byte 0x207 = 0 ∧
      changed.step = changed.execute ⟨0xAFFF⟩ := by
  intro m requests changed now
  have hload : ∀ request ∈ requests, request.image? = none := by
    simp [requests, Request.image?, Chunk.gather]
  have hheld : now.step.fault = some (.addressOutOfRange 0x1000) ∧
      m.heldByte (m.history requests) 0x204 = 0xAF ∧ m.heldByte (m.history requests) 0x206 = 5 ∧
      m.heldByte (m.history requests) 0x207 = 0 := by decide +kernel
  let before := m.history [.step 2]
  have hfetched : m.memory.word changed.pc.toNat = 0 ∧ changed.isWaiting = false ∧
      changed.pc.toNat + 2 ≤ Memory.size ∧ m.heldByte before changed.pc.toNat = 0xAF ∧
      m.heldByte before (changed.pc.toNat + 1) = 0xFF := by decide +kernel
  obtain ⟨hfault, hfirst, hthird, hbehind⟩ := hheld
  obtain ⟨hblank, hgoing, hrange, hhigh, hlow⟩ := hfetched
  have hcycle : changed.cyclesOf (.step 1) = [changed.nextCycle] := by simp [cyclesOf, cycles]
  have hpast : m.history requests = before ++ changed.nextCycle ::
      .answer (.step 1) (changed.serve (.step 1)) ::
        (changed.serve (.step 1)).machine.history
          [.press 3, .loadFrom [.broken "gone"], .step 2] := by
    show m.cyclesOf (.step 2) ++ _ :: (changed.cyclesOf (.step 1) ++ _) = _
    rw [hcycle]
    exact List.append_cons ..
  obtain ⟨hbytes, hopcode, -⟩ := memory_holds_last_stored m requests hload
  obtain ⟨op, hword, hstep⟩ := hopcode before changed _ _ _ hpast hgoing hrange
  rw [hhigh, hlow] at hword
  obtain rfl : op = ⟨0xAFFF⟩ := congrArg Opcode.mk (UInt16.toNat_inj.mp hword)
  exact ⟨⟨hload, hblank, hfault⟩, (hbytes _ (by decide)).trans hfirst,
    (hbytes _ (by decide)).trans hthird, (hbytes _ (by decide)).trans hbehind, hstep⟩

end Machine
end ChipEight
