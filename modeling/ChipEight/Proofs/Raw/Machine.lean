import ChipEight.Machine.Bench
import ChipEight.Proofs.Raw.Words

/-!
The raw machine: a machine of bare words and arrays. Registers, stack slots, keys, memory bytes and
display cells are picked out by plain numbers, the stack pointer is a byte, and a cell is a byte
that is meant to be zero or one. Nothing here is kept in range by its type. Every function that
indexes or calculates answers `none` where an index is outside its array or a result does not fit
its word, and goes on with the machine it has by then where it meets a fault.
-/
namespace ChipEight

/-- The state of a machine in bare words. -/
structure Raw where
  config : Config
  v : Vector UInt8 16
  i : UInt16
  pc : UInt16
  stack : Vector UInt16 16
  /-- How many stack slots are in use. -/
  sp : UInt8
  delay : UInt8
  sound : UInt8
  keys : Vector Bool 16
  /-- The number of the register that the next key goes to. -/
  waiting : Option Nat
  bytes : Vector UInt8 4096
  /-- The display, row by row. -/
  cells : Vector (Vector UInt8 64) 32
  dirty : Bool
  random : RandomBytes

/-- Where a program goes on behind an operation. -/
inductive Flow where
  | next
  | skip
  | jump (target : UInt16)

def Flow.target (pc : UInt16) : Flow → UInt16
  | next => pc + 2
  | skip => pc + 4
  | jump target => target

namespace Raw

/-- What has to hold of a raw machine for none of its uses to trap. -/
structure WellFormed (r : Raw) : Prop where
  sp_le : r.sp.toNat ≤ 16
  waiting_lt : ∀ k, r.waiting = some k → k < 16
  cell_bit : ∀ (y : Fin 32) (x : Fin 64), r.cells[y][x] = 0 ∨ r.cells[y][x] = 1

/-- The number of the flag register. -/
def flag : Nat := 15

def blankCells : Vector (Vector UInt8 64) 32 :=
  Vector.replicate 32 (Vector.replicate 64 0)

def bare (config : Config) (random : RandomBytes) : Raw where
  config := config
  v := Vector.replicate 16 0
  i := 0
  pc := 0x200
  stack := Vector.replicate 16 0
  sp := 0
  delay := 0
  sound := 0
  keys := Vector.replicate 16 false
  waiting := none
  bytes := Vector.replicate 4096 0
  cells := blankCells
  dirty := false
  random := random

def setV? (r : Raw) (k : Nat) (value : UInt8) : Option Raw := do
  let v ← put? r.v k value
  return { r with v }

/-- Goes on with the value a check found. A fault leaves the machine as it is. -/
def attempt? {α β : Type} (r : Raw) (found : Except Fault α)
    (go : α → Option (Raw × Except Fault β)) : Option (Raw × Except Fault β) :=
  match found with
  | .ok a => go a
  | .error f => some (r, .error f)

/-! ## Memory -/

def range? (address : UInt16) (length : Nat) : Option (Except Fault (Nat × Nat)) := do
  let stop ← within? sizeLimit (address.toNat + length)
  if Memory.size < stop then
    return .error (.addressOutOfRange (max address.toNat Memory.size))
  else
    return .ok (address.toNat, stop)

def read? (r : Raw) (address : UInt16) (length : Nat) : Option (Except Fault (List UInt8)) := do
  match ← range? address length with
  | .ok (start, stop) =>
      let bytes ← slice? r.bytes start stop
      return .ok bytes
  | .error f => return .error f

def write? (r : Raw) (address : UInt16) (data : List UInt8) :
    Option (Raw × Except Fault Unit) := do
  let range ← range? address data.length
  r.attempt? range fun (start, stop) => do
    let bytes ← splice? r.bytes start stop data
    return ({ r with bytes }, .ok ())

def writeByte (r : Raw) (address : UInt16) (value : UInt8) : Raw :=
  -- The one write whose check is part of the lookup: there is no index to trap on.
  match put? r.bytes address.toNat value with
  | some bytes => { r with bytes }
  | none => r

def fetch? (r : Raw) (address : UInt16) : Option (Except Fault Opcode) := do
  match ← r.read? address 2 with
  | .ok word =>
      let high ← word[0]?
      let low ← word[1]?
      return .ok ⟨high.toUInt16 <<< 8 ||| low.toUInt16⟩
  | .error f => return .error f

def load? (r : Raw) (image : List UInt8) : Option (Raw × Except Fault Unit) :=
  if imageCapacity < image.length then
    some (r, .error (.imageTooLarge image.length))
  else do
    let stop ← within? sizeLimit (Memory.programStart + image.length)
    let bytes ← splice? r.bytes Memory.programStart stop image
    return ({ r with bytes }, .ok ())

def loadFrom? (r : Raw) (stream : List Chunk) : Option (Raw × Except Fault Unit) :=
  r.attempt? (Chunk.gather stream) r.load?

def loadFont? (r : Raw) : Option Raw := do
  let stop ← within? sizeLimit (Font.base + Font.sheet.length)
  let bytes ← splice? r.bytes Font.base stop Font.sheet
  return { r with bytes }

/-- A machine ready for a program. -/
def create? (config : Config) (random : RandomBytes) : Option Raw :=
  if config.preloadFont then (bare config random).loadFont? else some (bare config random)

/-! ## Display -/

def cell? (r : Raw) (x y : Nat) : Option UInt8 := do
  let row ← r.cells[y]?
  row[x]?

/-- Turns a cell over, and says whether it was on. -/
def toggle? (r : Raw) (x y : Nat) : Option (Raw × Bool) := do
  let row ← r.cells[y]?
  let cell ← row[x]?
  let row ← put? row x (cell ^^^ 1)
  let cells ← put? r.cells y row
  return ({ r with cells }, cell == 1)

/-- Turns cells over, one after the other, and notes in the flag register if one was on. -/
def toggleAll? (r : Raw) : List (Nat × Nat) → Option Raw
  | [] => some r
  | (x, y) :: rest => do
      let (r, collided) ← r.toggle? x y
      let r ← if collided then r.setV? flag 1 else some r
      r.toggleAll? rest

/-- Where a lit cell lands. The display's size is only compared with, so this cannot trap. -/
def place (edges : EdgePolicy) (x y : Nat) : Except Fault (Option (Nat × Nat)) :=
  match edges with
  | .wrap => .ok (some (x % Frame.width, y % Frame.height))
  | .clip => .ok (if x < Frame.width ∧ y < Frame.height then some (x, y) else none)
  | .fault =>
      if x < Frame.width ∧ y < Frame.height then .ok (some (x, y))
      else .error (.spriteOutOfBounds x y)

/-- Whether a column of a row is lit. A shift must stay below the width of what it shifts. -/
def lit? (row : UInt8) (column : Nat) : Option Bool := do
  let distance ← less? 7 column
  if distance < 8 then return row >>> UInt8.ofNat distance &&& 1 != 0 else none

/-- A sprite's cells in the order they are looked at: bits of the row, column, number of the
row. -/
def spriteCells (sprite : List UInt8) : List (UInt8 × Nat × Nat) :=
  sprite.zipIdx.flatMap fun (bits, row) => (List.range 8).map fun column => (bits, column, row)

/-- The places of the lit ones among some cells. -/
def pixels? (edges : EdgePolicy) (x y : Nat) :
    List (UInt8 × Nat × Nat) → Option (Except Fault (List (Nat × Nat)))
  | [] => some (.ok [])
  | (bits, column, row) :: rest => do
      let lit ← lit? bits column
      if lit then
        let px ← within? sizeLimit (x + column)
        let py ← within? sizeLimit (y + row)
        match place edges px py with
        | .ok pixel =>
            let more ← pixels? edges x y rest
            return more.map (pixel.toList ++ ·)
        | .error f => return .error f
      else pixels? edges x y rest

/-- The bytes of a picture: each cell three times, scaled from one to full strength. -/
def strengths? : List UInt8 → Option (List UInt8)
  | [] => some []
  | cell :: rest => do
      let strength ← within? UInt8.size (cell.toNat * 255)
      let more ← strengths? rest
      return List.replicate 3 (UInt8.ofNat strength) ++ more

def picture? (r : Raw) : Option (List UInt8) :=
  strengths? (r.cells.toList.flatMap Vector.toList)

/-! ## Operations -/

def passes? (r : Raw) (op : Opcode) : Test → Option Bool
  | .holds .. => do
      let a ← r.v[op.rawX]?
      return a == op.rawByte
  | .lacks .. => do
      let a ← r.v[op.rawX]?
      return a != op.rawByte
  | .same .. => do
      let a ← r.v[op.rawX]?
      let b ← r.v[op.rawY]?
      return a == b
  | .different .. => do
      let a ← r.v[op.rawX]?
      let b ← r.v[op.rawY]?
      return a != b
  | .pressed _ => do
      let a ← r.v[op.rawX]?
      r.keys[(a &&& 0xF).toNat]?
  | .released _ => do
      let a ← r.v[op.rawX]?
      let down ← r.keys[(a &&& 0xF).toNat]?
      return !down

def combine? (r : Raw) (op : Opcode) (how : Arithmetic) : Option Raw := do
  let a ← r.v[op.rawX]?
  let b ← r.v[op.rawY]?
  let r ← r.setV? op.rawX (how.value a b)
  match how.flag? a b with
  | none => return r
  | some on => r.setV? flag on.toUInt8

def advance? (r : Raw) (op : Opcode) : Option Raw := do
  let a ← r.v[op.rawX]?
  let sum ← within? UInt32.size (r.i.toNat + a.toNat)
  let r := { r with i := UInt16.ofNat sum }
  match r.config.overflow with
  | .wrap => return r
  | .setFlag => r.setV? flag (decide (0x0FFF < sum)).toUInt8

def draw? (r : Raw) (op : Opcode) : Option (Raw × Except Fault Flow) := do
  let sprite ← r.read? r.i op.rawN
  r.attempt? sprite fun sprite => do
    let x ← r.v[op.rawX]?
    let y ← r.v[op.rawY]?
    let pixels ← pixels? r.config.edges x.toNat y.toNat (spriteCells sprite)
    r.attempt? pixels fun pixels => do
      let r ← r.setV? flag 0
      let r ← r.toggleAll? pixels
      return ({ r with dirty := true }, .ok .next)

def leave? (r : Raw) : Option (Raw × Except Fault Flow) :=
  if r.sp = 0 then some (r, .error (.stackUnderflow r.pc))
  else do
    let sp ← less? r.sp.toNat 1
    let target ← r.stack[sp]?
    return ({ r with sp := UInt8.ofNat sp }, .ok (.jump target))

def call? (r : Raw) (op : Opcode) : Option (Raw × Except Fault Flow) :=
  if 16 ≤ r.sp.toNat then some (r, .error (.stackOverflow r.pc))
  else do
    let stack ← put? r.stack r.sp.toNat (r.pc + 2)
    let sp ← within? UInt8.size (r.sp.toNat + 1)
    return ({ r with stack, sp := UInt8.ofNat sp }, .ok (.jump op.rawAddress))

def save? (r : Raw) (op : Opcode) : Option (Raw × Except Fault Unit) := do
  let count ← within? sizeLimit (op.rawX + 1)
  let values ← slice? r.v 0 count
  r.write? r.i values

def restore? (r : Raw) (op : Opcode) : Option (Raw × Except Fault Unit) := do
  let count ← within? sizeLimit (op.rawX + 1)
  let values ← r.read? r.i count
  r.attempt? values fun values => do
    let v ← splice? r.v 0 count values
    return ({ r with v }, .ok ())

/-- Carries out the operation an instruction stands for. The instruction only selects it: the
operands are cut out of the opcode. -/
def operate? (r : Raw) (op : Opcode) : Instruction → Option (Raw × Except Fault Flow)
  | .clear => some ({ r with cells := blankCells, dirty := true }, .ok .next)
  | .leave => r.leave?
  | .jump _ => some (r, .ok (.jump op.rawAddress))
  | .call _ => r.call? op
  | .skip test => do
      let passes ← r.passes? op test
      return (r, .ok (if passes then .skip else .next))
  | .set .. => do
      let r ← r.setV? op.rawX op.rawByte
      return (r, .ok .next)
  | .increase .. => do
      let a ← r.v[op.rawX]?
      let r ← r.setV? op.rawX (a + op.rawByte)
      return (r, .ok .next)
  | .combine how .. => do
      let r ← r.combine? op how
      return (r, .ok .next)
  | .point _ => some ({ r with i := op.rawAddress }, .ok .next)
  | .jumpBy _ => do
      let a ← r.v[0]?
      let target ← within? UInt16.size (a.toNat + op.rawAddress.toNat)
      return (r, .ok (.jump (UInt16.ofNat target)))
  | .random .. => do
      let r ← { r with random := r.random.advance }.setV? op.rawX (r.random.next &&& op.rawByte)
      return (r, .ok .next)
  | .draw .. => r.draw? op
  | .readDelay _ => do
      let r ← r.setV? op.rawX r.delay
      return (r, .ok .next)
  | .awaitKey _ => some ({ r with waiting := some op.rawX }, .ok .next)
  | .setDelay _ => do
      let delay ← r.v[op.rawX]?
      return ({ r with delay }, .ok .next)
  | .setSound _ => do
      let sound ← r.v[op.rawX]?
      return ({ r with sound }, .ok .next)
  | .advance _ => do
      let r ← r.advance? op
      return (r, .ok .next)
  | .pointDigit _ => do
      let a ← r.v[op.rawX]?
      let offset ← within? UInt16.size ((a &&& 0xF).toNat * Font.height)
      let i ← within? UInt16.size (Font.base + offset)
      return ({ r with i := UInt16.ofNat i }, .ok .next)
  | .storeDecimal _ => do
      let a ← r.v[op.rawX]?
      let (r, written) ← r.write? r.i (decimalDigits a)
      return (r, written.map fun _ => .next)
  | .save _ => do
      let (r, written) ← r.save? op
      return (r, written.map fun _ => .next)
  | .restore _ => do
      let (r, restored) ← r.restore? op
      return (r, restored.map fun _ => .next)

/-- Moves the program counter if the operation met no fault. -/
def settle (r : Raw) : Except Fault Flow → Raw × Option Fault
  | .ok flow => ({ r with pc := flow.target r.pc }, none)
  | .error f => (r, some f)

def execute? (r : Raw) (op : Opcode) : Option (Raw × Option Fault) := do
  match Instruction.decode? op with
  | some i =>
      let (r, flow) ← r.operate? op i
      return r.settle flow
  | none =>
      match r.config.unknown with
      | .skip => return r.settle (.ok .next)
      | .fail => return (r, some (.unknownOpcode op r.pc))

def step? (r : Raw) : Option (Raw × Option Fault) := do
  if r.waiting.isSome then return (r, none)
  else
    match ← r.fetch? r.pc with
    | .ok op => r.execute? op
    | .error f => return (r, some f)

/-! ## Loops -/

def cyclesUntil? (halt : Raw → Bool) : Nat → Raw → Option (Raw × Option Fault)
  | 0, r => some (r, none)
  | limit + 1, r => do
      let (r, fault) ← r.step?
      if fault.isSome || halt r then return (r, fault) else cyclesUntil? halt limit r

def executeAll? : List Opcode → Raw → Option (Raw × Option Fault)
  | [], r => some (r, none)
  | op :: rest, r => do
      let (r, fault) ← r.execute? op
      if fault.isSome then return (r, fault) else executeAll? rest r

def executeRounds? (code : List Opcode) : Nat → Raw → Option (Raw × Option Fault)
  | 0, r => some (r, none)
  | rounds + 1, r => do
      let (r, fault) ← executeAll? code r
      if fault.isSome then return (r, fault) else executeRounds? code rounds r

/-! ## Requests -/

def press? (r : Raw) (key : UInt8) : Option Raw :=
  match put? r.keys key.toNat true with
  | none => some r
  | some keys =>
      match r.waiting with
      | none => some { r with keys }
      | some k => { r with keys, waiting := none }.setV? k key

def release (r : Raw) (key : UInt8) : Raw :=
  match put? r.keys key.toNat false with
  | none => r
  | some keys => { r with keys }

/-- A timer falls by one, or stays where there is nothing to take one from. -/
def fall (timer : UInt8) : UInt8 :=
  match less? timer.toNat 1 with
  | some rest => UInt8.ofNat rest
  | none => timer

def tick (r : Raw) : Raw :=
  { r with delay := fall r.delay, sound := fall r.sound }

def ticks : Nat → Raw → Raw
  | 0, r => r
  | times + 1, r => ticks times r.tick

def ticksDelay : Nat → Raw → Raw
  | 0, r => r
  | times + 1, r => ticksDelay times { r with delay := fall r.delay }

/-- The machine after a request of a host. -/
def serve? (r : Raw) : Request → Option Raw
  | .load image => (r.load? image).map Prod.fst
  | .loadFrom stream => (r.loadFrom? stream).map Prod.fst
  | .press key => r.press? key
  | .release key => some (r.release key)
  | .tick times => some (ticks times r)
  | .readDelay | .readByte _ | .frame => some r
  | .setDelay value => some { r with delay := value }
  | .tickDelay times => some (ticksDelay times r)
  | .acknowledge => some { r with dirty := false }
  | .picture => if r.dirty then r.picture?.map fun _ => r else some r
  | .readBlock address length => (r.read? address length).map fun _ => r
  | .fetch address => (r.fetch? address).map fun _ => r
  | .cell x y => (r.cell? x y).map fun _ => r
  | .register x => r.v[x]?.map fun _ => r
  | .step times => (cyclesUntil? (fun _ => false) times r).map Prod.fst
  | .run limit => (cyclesUntil? (·.waiting.isSome) limit r).map Prod.fst

/-- The machine after a request on the bench. -/
def serveBench? (r : Raw) : BenchRequest → Option Raw
  | .host request => r.serve? request
  | .execute code rounds => (executeRounds? code rounds r).map Prod.fst
  | .write address data => (r.write? address data).map Prod.fst
  | .writeByte address value => some (r.writeByte address value)
  | .loadFont => r.loadFont?
  | .toggle x y => (r.toggle? x y).map Prod.fst
  | .clear => some { r with cells := blankCells, dirty := true }
  | .markDirty => some { r with dirty := true }

def afterBench? (r : Raw) : List BenchRequest → Option Raw
  | [] => some r
  | request :: rest => do
      let r ← r.serveBench? request
      r.afterBench? rest

end Raw
end ChipEight
