import ChipEight.Machine.Execute

/-!
The opcode of an instruction. `Instruction.opcode` writes an instruction down, with its operands in
the nibbles they are read from. An opcode stands for an instruction just if it is the one that the
instruction is written as (`Instruction.decode?_opcode`, `Instruction.eq_opcode_of_decode?`), so each
instruction has one opcode, and what an instruction does can be told from the nibbles of its opcode.
-/
namespace ChipEight

namespace Opcode

/-- The opcode of a family that carries an address. -/
def ofAddress (family : Nat) (address : Address) : Opcode :=
  ⟨UInt16.ofNat (4096 * family + address)⟩

/-- The opcode of a family that carries a register and a byte. -/
def ofByte (family : Nat) (x : Register) (byte : UInt8) : Opcode :=
  ⟨UInt16.ofNat (4096 * family + 256 * x + byte.toNat)⟩

/-- The opcode of a family that carries two registers and a nibble. -/
def ofRegisters (family : Nat) (x y : Register) (n : Nat) : Opcode :=
  ⟨UInt16.ofNat (4096 * family + 256 * x + 16 * y + n % 16)⟩

section
variable (family : Nat) (address : Address) (x y : Register) (byte : UInt8) (n : Nat)

theorem toNat_ofAddress :
    (ofAddress family address).word.toNat = (4096 * family + address) % 65536 :=
  UInt16.toNat_ofNat'

theorem toNat_ofByte :
    (ofByte family x byte).word.toNat = (4096 * family + 256 * x + byte.toNat) % 65536 :=
  UInt16.toNat_ofNat'

theorem toNat_ofRegisters :
    (ofRegisters family x y n).word.toNat =
      (4096 * family + 256 * x + 16 * y + n % 16) % 65536 :=
  UInt16.toNat_ofNat'

@[simp] theorem family_ofAddress : (ofAddress family address).family.val = family % 16 := by
  have := address.isLt
  rw [Opcode.family, toNat_ofAddress, Fin.val_ofNat]
  omega

@[simp] theorem address_ofAddress : (ofAddress family address).address = address := by
  have := address.isLt
  ext
  rw [Opcode.address, toNat_ofAddress, Fin.val_ofNat]
  omega

@[simp] theorem family_ofByte : (ofByte family x byte).family.val = family % 16 := by
  have := byte.toNat_lt
  rw [Opcode.family, toNat_ofByte, Fin.val_ofNat]
  omega

@[simp] theorem x_ofByte : (ofByte family x byte).x = x := by
  have := byte.toNat_lt
  ext
  rw [Opcode.x, toNat_ofByte, Fin.val_ofNat]
  omega

@[simp] theorem byte_ofByte : (ofByte family x byte).byte = byte := by
  have := byte.toNat_lt
  apply UInt8.toNat_inj.mp
  rw [Opcode.byte, toNat_ofByte, UInt8.toNat_ofNat']
  omega

@[simp] theorem family_ofRegisters : (ofRegisters family x y n).family.val = family % 16 := by
  rw [Opcode.family, toNat_ofRegisters, Fin.val_ofNat]
  omega

@[simp] theorem x_ofRegisters : (ofRegisters family x y n).x = x := by
  ext
  rw [Opcode.x, toNat_ofRegisters, Fin.val_ofNat]
  omega

@[simp] theorem y_ofRegisters : (ofRegisters family x y n).y = y := by
  ext
  rw [Opcode.y, toNat_ofRegisters, Fin.val_ofNat]
  omega

@[simp] theorem n_ofRegisters : (ofRegisters family x y n).n.val = n % 16 := by
  rw [Opcode.n, toNat_ofRegisters, Fin.val_ofNat]
  omega

end

theorem eq_ofAddress {op : Opcode} {family : Nat} (h : op.family.val = family) :
    op = ofAddress family op.address := by
  rcases op with ⟨w⟩
  have := w.toNat_lt
  subst h
  simp only [ofAddress, Opcode.family, address, Fin.val_ofNat, Opcode.mk.injEq]
  apply UInt16.toNat_inj.mp
  rw [UInt16.toNat_ofNat']
  omega

theorem eq_ofByte {op : Opcode} {family : Nat} (h : op.family.val = family) :
    op = ofByte family op.x op.byte := by
  rcases op with ⟨w⟩
  have := w.toNat_lt
  subst h
  simp only [ofByte, Opcode.family, x, byte, Fin.val_ofNat, UInt8.toNat_ofNat', Opcode.mk.injEq]
  apply UInt16.toNat_inj.mp
  rw [UInt16.toNat_ofNat']
  omega

theorem eq_ofRegisters {op : Opcode} {family n : Nat} (h : op.family.val = family)
    (hn : op.n.val = n) : op = ofRegisters family op.x op.y n := by
  rcases op with ⟨w⟩
  have := w.toNat_lt
  subst h hn
  simp only [ofRegisters, Opcode.family, x, y, Opcode.n, Fin.val_ofNat, Opcode.mk.injEq]
  apply UInt16.toNat_inj.mp
  rw [UInt16.toNat_ofNat']
  omega

end Opcode

/-- The last nibble of an `8XYN` opcode that selects an operation. -/
def Arithmetic.nibble : Arithmetic → Nat
  | copy => 0x0
  | or => 0x1
  | and => 0x2
  | xor => 0x3
  | add => 0x4
  | subtract => 0x5
  | shiftRight => 0x6
  | subtractFrom => 0x7
  | shiftLeft => 0xE

theorem Arithmetic.ofNibble?_eq_some_iff {n : Fin 16} {how : Arithmetic} :
    ofNibble? n = some how ↔ n.val = how.nibble := by
  constructor
  · intro h
    unfold ofNibble? at h
    split at h <;> cases h <;> assumption
  · intro h
    unfold ofNibble?
    rw [h]
    cases how <;> rfl

theorem Arithmetic.nibble_mod (how : Arithmetic) : how.nibble % 16 = how.nibble := by
  cases how <;> rfl

namespace Instruction

/-- The opcode that stands for an instruction. -/
def opcode : Instruction → Opcode
  | clear => ⟨0x00E0⟩
  | leave => ⟨0x00EE⟩
  | jump target => .ofAddress 0x1 target
  | call target => .ofAddress 0x2 target
  | skip (.holds x value) => .ofByte 0x3 x value
  | skip (.lacks x value) => .ofByte 0x4 x value
  | skip (.same x y) => .ofRegisters 0x5 x y 0x0
  | set x value => .ofByte 0x6 x value
  | increase x value => .ofByte 0x7 x value
  | combine how x y => .ofRegisters 0x8 x y how.nibble
  | skip (.different x y) => .ofRegisters 0x9 x y 0x0
  | point target => .ofAddress 0xA target
  | jumpBy base => .ofAddress 0xB base
  | random x mask => .ofByte 0xC x mask
  | draw x y rows => .ofRegisters 0xD x y rows
  | skip (.pressed x) => .ofByte 0xE x 0x9E
  | skip (.released x) => .ofByte 0xE x 0xA1
  | readDelay x => .ofByte 0xF x 0x07
  | awaitKey x => .ofByte 0xF x 0x0A
  | setDelay x => .ofByte 0xF x 0x15
  | setSound x => .ofByte 0xF x 0x18
  | advance x => .ofByte 0xF x 0x1E
  | pointDigit x => .ofByte 0xF x 0x29
  | storeDecimal x => .ofByte 0xF x 0x33
  | save last => .ofByte 0xF last 0x55
  | restore last => .ofByte 0xF last 0x65

theorem decode?_opcode (i : Instruction) : decode? i.opcode = some i := by
  cases i with
  | clear | leave => rfl
  | combine how x y =>
    have hhow : Arithmetic.ofNibble? (Opcode.ofRegisters 0x8 x y how.nibble).n = some how := by
      rw [Arithmetic.ofNibble?_eq_some_iff, Opcode.n_ofRegisters, how.nibble_mod]
    simp [opcode, decode?, hhow]
  | draw x y rows =>
    have hrows : (Opcode.ofRegisters 0xD x y rows).n = rows := by
      ext
      rw [Opcode.n_ofRegisters, Nat.mod_eq_of_lt rows.isLt]
    simp [opcode, decode?, hrows]
  | skip test => cases test <;> simp [opcode, decode?]
  | readDelay | awaitKey | setDelay | setSound | advance | pointDigit | storeDecimal | save
  | restore => simp [opcode, decode?, ofLowByte?]
  | _ => simp [opcode, decode?]

theorem eq_opcode_of_decode? {op : Opcode} {i : Instruction} (h : decode? op = some i) :
    op = i.opcode := by
  unfold decode? at h
  split at h
  case h_1 hfamily =>
    have hop : op = .ofAddress 0x0 op.address := Opcode.eq_ofAddress hfamily
    split at h
    · rename_i haddress
      cases h
      rw [hop, show op.address = 0x0E0 from Fin.ext haddress]
      rfl
    · split at h
      · rename_i haddress
        cases h
        rw [hop, show op.address = 0x0EE from Fin.ext haddress]
        rfl
      · cases h
  case h_2 hfamily | h_3 hfamily | h_11 hfamily | h_12 hfamily =>
    cases h
    exact Opcode.eq_ofAddress hfamily
  case h_4 hfamily | h_5 hfamily | h_7 hfamily | h_8 hfamily | h_13 hfamily =>
    cases h
    exact Opcode.eq_ofByte hfamily
  case h_6 hfamily | h_10 hfamily =>
    split at h
    · rename_i hn
      cases h
      exact Opcode.eq_ofRegisters hfamily hn
    · cases h
  case h_9 hfamily =>
    obtain ⟨how, hhow, rfl⟩ := Option.map_eq_some_iff.mp h
    have hn := Arithmetic.ofNibble?_eq_some_iff.mp hhow
    exact Opcode.eq_ofRegisters hfamily hn
  case h_14 hfamily =>
    cases h
    exact Opcode.eq_ofRegisters hfamily rfl
  case h_15 hfamily =>
    have hop : op = .ofByte 0xE op.x op.byte := Opcode.eq_ofByte hfamily
    split at h
    · rename_i hbyte
      cases h
      rw [hop, show op.byte = 0x9E from UInt8.toNat_inj.mp hbyte, Opcode.x_ofByte]
      rfl
    · split at h
      · rename_i hbyte
        cases h
        rw [hop, show op.byte = 0xA1 from UInt8.toNat_inj.mp hbyte, Opcode.x_ofByte]
        rfl
      · cases h
  case h_16 =>
    have hfamily : op.family.val = 0xF := by
      have := op.family.isLt
      grind
    have hop : op = .ofByte 0xF op.x op.byte := Opcode.eq_ofByte hfamily
    unfold ofLowByte? at h
    split at h
    case h_10 => cases h
    all_goals
      rename_i hbyte
      cases h
      rw [hop, Opcode.x_ofByte]
      exact congrArg _ (UInt8.toNat_inj.mp hbyte)

end Instruction

theorem Machine.execute_opcode (m : Machine) (i : Instruction) :
    m.execute i.opcode = i.execute m := by
  rw [execute, Instruction.decode?_opcode]

end ChipEight
