import ChipEight.Proofs.Raw.Parts
import ChipEight.Proofs.StackBound

/-!
The operations of a raw machine. `Raw.operate?_eq` says of every instruction that its operation does
not trap on a machine whose call stack is not overfull, and that it does to the machine what
`Instruction.effect` does, fault or not.
-/
namespace ChipEight

/-! ## Operands and flow -/

namespace Instruction

/-- The operands of an instruction are fields of an opcode. -/
def Carries (op : Opcode) : Instruction → Prop
  | clear | leave => True
  | jump target | call target | point target | jumpBy target => target = op.address
  | skip (.holds x value) | skip (.lacks x value) => x = op.x ∧ value = op.byte
  | skip (.same x y) | skip (.different x y) => x = op.x ∧ y = op.y
  | skip (.pressed x) | skip (.released x) => x = op.x
  | set x value | increase x value | random x value => x = op.x ∧ value = op.byte
  | combine _ x y => x = op.x ∧ y = op.y
  | draw x y rows => x = op.x ∧ y = op.y ∧ rows = op.n
  | readDelay x | awaitKey x | setDelay x | setSound x | advance x | pointDigit x
  | storeDecimal x | save x | restore x => x = op.x

theorem carries_of_ofLowByte? {op : Opcode} {low : UInt8} {i : Instruction}
    (h : ofLowByte? op.x low = some i) : i.Carries op := by
  unfold ofLowByte? at h
  split at h <;> simp only [Option.some.injEq, reduceCtorEq] at h <;> subst h <;> rfl

theorem carries_of_decode? {op : Opcode} {i : Instruction} (h : decode? op = some i) :
    i.Carries op := by
  unfold decode? at h
  -- One case for each family, in the order of their nibbles.
  split at h
  case h_1 =>
    split at h
    · cases h; trivial
    · split at h <;> cases h
      trivial
  case h_9 =>
    obtain ⟨how, -, rfl⟩ := Option.map_eq_some_iff.mp h
    exact ⟨rfl, rfl⟩
  case h_6 | h_10 =>
    split at h <;> cases h
    exact ⟨rfl, rfl⟩
  case h_15 =>
    split at h
    · cases h; rfl
    · split at h <;> cases h
      rfl
  case h_16 => exact carries_of_ofLowByte? h
  case h_14 =>
    cases h
    exact ⟨rfl, rfl, rfl⟩
  case h_2 | h_3 | h_11 | h_12 =>
    cases h
    rfl
  all_goals
    cases h
    exact ⟨rfl, rfl⟩

/-- Where the program goes on behind an instruction that meets no fault. -/
def flow (m : Machine) : Instruction → Flow
  | jump target => .jump (next m (jump target))
  | call target => .jump (next m (call target))
  | jumpBy base => .jump (next m (jumpBy base))
  | leave => .jump (next m leave)
  | skip test => if test.passes m then .skip else .next
  | _ => .next

theorem target_flow (i : Instruction) (m : Machine) : (i.flow m).target m.pc = i.next m := by
  unfold flow next
  cases i with
  | skip test =>
    dsimp only
    cases test.passes m <;> rfl
  | _ => dsimp only [Flow.target]

end Instruction

namespace Raw

section
variable {m : Machine} {op : Opcode}

theorem toNat_and_low (value : UInt8) : (value &&& 0xF).toNat = value.toNat % 16 := by
  rw [UInt8.toNat_and]
  exact Nat.and_two_pow_sub_one_eq_mod _ 4

theorem keys_get? (value : UInt8) :
    (ofMachine m).keys[(value &&& 0xF).toNat]? = some (m.keyDown value) := by
  rw [toNat_and_low, Vector.getElem?_eq_getElem (Nat.mod_lt _ (by decide))]
  rfl

theorem passes?_eq {test : Test} (h : (Instruction.skip test).Carries op) :
    (ofMachine m).passes? op test = some (test.passes m) := by
  cases test with
  | holds x value | lacks x value =>
    obtain ⟨rfl, rfl⟩ := h
    simp only [passes?, op.rawX_eq, op.rawByte_eq, v_get?]
    rfl
  | same x y | different x y =>
    obtain ⟨rfl, rfl⟩ := h
    simp only [passes?, op.rawX_eq, op.rawY_eq, v_get?]
    rfl
  | pressed x =>
    cases h
    simp only [passes?, op.rawX_eq, v_get?, Option.bind_eq_bind, Option.bind_some]
    exact keys_get? _
  | released x =>
    cases h
    simp only [passes?, op.rawX_eq, v_get?, keys_get?, Option.bind_eq_bind, Option.bind_some]
    rfl

theorem combine?_eq (how : Arithmetic) :
    (ofMachine m).combine? op how = some (ofMachine (m.combine how op.x op.y)) := by
  rw [combine?, op.rawX_eq, op.rawY_eq]
  simp only [v_get?, setV?_eq, Option.bind_eq_bind, Option.bind_some, Machine.combine]
  cases how.flag? (m.register op.x) (m.register op.y) with
  | none => rfl
  | some on => exact setV?_flag _ on

theorem advance?_eq : (ofMachine m).advance? op = some (ofMachine (m.advanceIndex op.x)) := by
  have hsum : m.index.toNat + (m.register op.x).toNat < UInt32.size := by
    have := m.index.toNat_lt
    have := (m.register op.x).toNat_lt
    simp only [UInt32.size]
    omega
  rw [advance?, op.rawX_eq, v_get?, Option.bind_eq_bind, Option.bind_some]
  show within? UInt32.size (m.index.toNat + (m.register op.x).toNat) >>= _ = _
  rw [within?_eq hsum]
  simp only [Option.bind_eq_bind, Option.bind_some, Machine.advanceIndex, Machine.indexSum]
  simp only [show (ofMachine m).config = m.config from rfl]
  cases m.config.overflow with
  | wrap => rfl
  | setFlag =>
    exact setV?_flag { m with index := UInt16.ofNat (m.index.toNat + (m.register op.x).toNat) } _

theorem toNat_sp (h : m.StackFits) :
    (ofMachine m).sp.toNat = m.calls.depth := by
  simp only [Machine.StackFits, CallStack.capacity] at h
  simp only [ofMachine, UInt8.toNat_ofNat']
  omega

theorem leave?_eq (h : m.StackFits) :
    (ofMachine m).leave? =
      some (ofOutcome (Instruction.effect m .leave) (.jump m.calls.top)) := by
  have hsp := toNat_sp h
  simp only [Machine.StackFits, CallStack.capacity] at h
  simp only [leave?, Instruction.effect, CallStack.pop?]
  by_cases hd : m.calls.depth = 0
  · have hzero : (ofMachine m).sp = 0 := UInt8.toNat_inj.mp (by rw [hsp, hd]; rfl)
    simp only [if_pos hzero, if_pos hd]
    rfl
  · have hpos : (ofMachine m).sp ≠ 0 := fun hz => hd (by rw [← hsp, hz]; rfl)
    have hslot : (ofMachine m).stack[m.calls.depth - 1]? = some m.calls.top := by
      have hlt : m.calls.depth - 1 < 16 := by omega
      simp [ofMachine, CallStack.top, CallStack.slot, hlt]
    simp only [if_neg hpos, if_neg hd, hsp, less?_eq (Nat.one_le_iff_ne_zero.mpr hd), hslot,
      Option.bind_eq_bind, Option.bind_some]
    rfl

theorem call?_eq (h : m.StackFits) :
    (ofMachine m).call? op = some (ofOutcome (Instruction.effect m (.call op.address))
      (.jump (UInt16.ofNat op.address.val))) := by
  have hsp := toNat_sp h
  simp only [call?, Instruction.effect, CallStack.push?, hsp]
  by_cases hd : m.calls.depth < CallStack.capacity
  · have hlt : m.calls.depth < 16 := hd
    have hwidth : m.calls.depth + 1 < UInt8.size := by
      simp only [UInt8.size]
      omega
    have hput := setIfInBounds_eq_set m.calls.slots hlt (m.pc + 2)
    simp only [if_neg (Nat.not_le.mpr hlt), if_pos hd, put?_eq hlt, within?_eq hwidth,
      op.rawAddress_eq, hput, Option.bind_eq_bind, Option.bind_some]
    rfl
  · have hge : 16 ≤ m.calls.depth := Nat.not_lt.mp hd
    simp only [if_pos hge, if_neg hd]
    rfl

theorem length_read {memory : Memory} {address : UInt16} {length : Nat} {bytes : List UInt8}
    {hend : Memory.HasEnd address length} (h : memory.read address length hend = .ok bytes) : bytes.length = length := by
  rw [Memory.read_eq] at h
  split at h <;> cases h
  simp

/-- Turning points over with the flag register reset first is drawing them. -/
theorem turned_drawPoints (points : List Point) :
    { turned (m.setFlag false) points with
      display := { (turned (m.setFlag false) points).display with dirty := true } } =
      m.drawPoints points := by
  cases h : m.display.frame.collides points <;>
    simp [turned, Machine.drawPoints, Machine.setFlag, Machine.setRegister, Display.draw, h]

theorem draw?_eq : (ofMachine m).draw? op =
    some (ofOutcome (Instruction.effect m (.draw op.x op.y op.n)) .next) := by
  have hread : (ofMachine m).read? m.index op.rawN = some (m.memory.read m.index op.n.val) := by
    rw [op.rawN_eq]
    exact read?_eq m (Memory.hasEnd_of_le _ (by omega))
  rw [draw?, show (ofMachine m).i = m.index from rfl, hread, Option.bind_eq_bind, Option.bind_some]
  refine attempt?_eq m fun sprite hsprite => ?_
  -- Nothing is written before this check has found every lit cell its place.
  have hcells : ∀ c ∈ spriteCells sprite, c.2.1 < 8 ∧ c.2.2 < 16 := fun c hc =>
    mem_spriteCells (by rw [length_read hsprite]; exact op.n.isLt) hc
  have hpixels := pixels?_eq m.config.edges (m.register op.x).toNat_lt (m.register op.y).toNat_lt
    hcells
  rw [← litCells_eq] at hpixels
  simp only [op.rawX_eq, op.rawY_eq, v_get?, Option.bind_eq_bind, Option.bind_some]
  rw [show (ofMachine m).config = m.config from rfl, hpixels, Option.bind_some]
  cases m.config.edges.placeAll (m.register op.x).toNat (m.register op.y).toNat
      (Sprite.litCells sprite) with
  | error f => rfl
  | ok points =>
    -- The flag register is the first thing that is written, after the registers were read.
    have hflag := setV?_flag m false
    simp only [Except.map, attempt?, Outcome.check_ok, ofOutcome_success]
    rw [show (0 : UInt8) = false.toUInt8 from rfl, hflag, Option.bind_some, toggleAll?_eq,
      Option.bind_some, ← turned_drawPoints]
    rfl

theorem save?_eq :
    (ofMachine m).save? op = some (ofOutcome (Instruction.effect m (.save op.x)) ()) := by
  have hx : 0 + (op.x.val + 1) ≤ 16 := by omega
  have hlimit : op.x.val + 1 < sizeLimit := lt_sizeLimit (by omega)
  have hslice := slice?_eq m.registers hx
  rw [Nat.zero_add, List.drop_zero] at hslice
  rw [save?, op.rawX_eq, within?_eq hlimit, Option.bind_eq_bind, Option.bind_some,
    show (ofMachine m).v = m.registers from rfl, hslice, Option.bind_eq_bind, Option.bind_some]
  exact write?_eq m m.index _ (Memory.hasEnd_of_le _ (by simp; omega))

theorem splice?_registers {values : List UInt8} {count : Nat} (hcount : count ≤ 16)
    (hlen : values.length = count) :
    splice? m.registers 0 count values = some (m.setRegisters values).registers := by
  have hall : 0 + values.length = count := by omega
  obtain ⟨ys, hys, hget⟩ := splice?_spec m.registers hcount hall
  rw [hys]
  congr 1
  apply Vector.ext
  intro j hj
  have hj' := hget j
  rw [Vector.getElem?_eq_getElem hj, Vector.getElem?_eq_getElem hj] at hj'
  simp only [Machine.setRegisters, Vector.getElem_ofFn]
  by_cases hin : j < count
  · rw [if_pos ⟨Nat.zero_le j, hin⟩, Nat.sub_zero] at hj'
    simp [← hj']
  · rw [if_neg fun h => hin h.2] at hj'
    have hnone : values[j]? = none := List.getElem?_eq_none (by omega)
    simpa [hnone] using hj'

theorem unit_map_ofOutcome {β : Type} (o : Outcome) (b : β) :
    ((ofOutcome o ()).1, (ofOutcome o ()).2.map fun _ => b) = ofOutcome o b := by
  rcases o with ⟨m, _ | f⟩ <;> rfl

theorem restore?_eq :
    (ofMachine m).restore? op = some (ofOutcome (Instruction.effect m (.restore op.x)) ()) := by
  have hlimit : op.x.val + 1 < sizeLimit := lt_sizeLimit (by omega)
  have hread := read?_eq m (Memory.hasEnd_of_le m.index (show op.x.val + 1 ≤ 0x10000 by omega))
  rw [restore?, op.rawX_eq, within?_eq hlimit, Option.bind_eq_bind, Option.bind_some,
    show (ofMachine m).i = m.index from rfl, hread, Option.bind_eq_bind, Option.bind_some]
  refine attempt?_eq m fun values hvalues => ?_
  rw [show (ofMachine m).v = m.registers from rfl,
    splice?_registers (by omega) (length_read hvalues)]
  rfl

theorem operate?_eq (h : m.StackFits) {i : Instruction} (hi : i.Carries op) :
    (ofMachine m).operate? op i = some (ofOutcome (i.effect m) (i.flow m)) := by
  -- In each case the operands the opcode's masks cut out are those of the instruction.
  cases i with
  | clear =>
    rw [operate?, ← ofCells_blank]
    rfl
  | leave => exact leave?_eq h
  | jump target =>
    cases hi
    rw [operate?, op.rawAddress_eq]
    rfl
  | call target =>
    cases hi
    exact call?_eq h
  | skip test =>
    rw [operate?, passes?_eq hi]
    rfl
  | set x value =>
    obtain ⟨rfl, rfl⟩ := hi
    rw [operate?, op.rawX_eq, op.rawByte_eq, setV?_eq]
    rfl
  | increase x value =>
    obtain ⟨rfl, rfl⟩ := hi
    rw [operate?, op.rawX_eq, op.rawByte_eq, v_get?, Option.bind_eq_bind, Option.bind_some,
      setV?_eq]
    rfl
  | combine how x y =>
    obtain ⟨rfl, rfl⟩ := hi
    rw [operate?, combine?_eq]
    rfl
  | point target =>
    cases hi
    rw [operate?, op.rawAddress_eq]
    rfl
  | jumpBy base =>
    cases hi
    have hwidth : (m.register ⟨0, by decide⟩).toNat + op.address.val < UInt16.size := by
      have := (m.register ⟨0, by decide⟩).toNat_lt
      simp only [UInt16.size]
      omega
    have hget := v_get? m ⟨0, by decide⟩
    dsimp only at hget
    rw [operate?, hget, Option.bind_eq_bind, Option.bind_some, op.toNat_rawAddress,
      within?_eq hwidth, Nat.add_comm]
    rfl
  | random x mask =>
    obtain ⟨rfl, rfl⟩ := hi
    have hset := setV?_eq { m with random := m.random.advance } op.x (m.random.next &&& op.byte)
    rw [operate?, op.rawX_eq, op.rawByte_eq]
    show (ofMachine { m with random := m.random.advance }).setV? _ _ >>= _ = _
    rw [show (ofMachine m).random = m.random from rfl, hset]
    rfl
  | draw x y rows =>
    obtain ⟨rfl, rfl, rfl⟩ := hi
    exact draw?_eq
  | readDelay x =>
    cases hi
    rw [operate?, op.rawX_eq, setV?_eq]
    rfl
  | awaitKey x =>
    cases hi
    rw [operate?, op.rawX_eq]
    rfl
  | setDelay x | setSound x =>
    cases hi
    rw [operate?, op.rawX_eq, v_get?]
    rfl
  | advance x =>
    cases hi
    rw [operate?, advance?_eq]
    rfl
  | pointDigit x =>
    cases hi
    have hdigit := toNat_and_low (m.register op.x)
    have hlow : (m.register op.x).toNat % 16 < 16 := Nat.mod_lt _ (by decide)
    have hoffset : (m.register op.x).toNat % 16 * Font.height < UInt16.size := by
      simp only [Font.height, UInt16.size]
      omega
    have hindex : Font.base + (m.register op.x).toNat % 16 * Font.height < UInt16.size := by
      simp only [Font.height, Font.base, UInt16.size]
      omega
    rw [operate?, op.rawX_eq, v_get?, Option.bind_eq_bind, Option.bind_some, hdigit,
      within?_eq hoffset, Option.bind_eq_bind, Option.bind_some, within?_eq hindex, Nat.mul_comm]
    rfl
  | storeDecimal x =>
    cases hi
    have hwrite := write?_eq m m.index (decimalDigits (m.register op.x))
      (Memory.hasEnd_of_le _ (by simp [decimalDigits]))
    rw [operate?, op.rawX_eq, v_get?, Option.bind_eq_bind, Option.bind_some,
      show (ofMachine m).i = m.index from rfl, hwrite]
    exact congrArg some (unit_map_ofOutcome _ _)
  | save x =>
    cases hi
    rw [operate?, save?_eq]
    exact congrArg some (unit_map_ofOutcome _ _)
  | restore x =>
    cases hi
    rw [operate?, restore?_eq]
    exact congrArg some (unit_map_ofOutcome _ _)

end
end Raw
end ChipEight
