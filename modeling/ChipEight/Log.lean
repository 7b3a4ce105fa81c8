import ChipEight.Config
import ChipEight.Opcode
import ChipEight.Text.Hex

/-!
The log: what is worth noting about a machine and its host, as values. `Entry.text` is the wording
of an entry, and `Log.visible` keeps those a threshold lets through.
-/
namespace ChipEight.Log

/-- How much is logged, from nothing to everything. -/
inductive Level where
  | off
  | error
  | warn
  | info
  | debug
  | trace
  deriving DecidableEq

namespace Level

/-- A level's place in the order from nothing to everything. -/
def rank : Level → Nat
  | off => 0
  | error => 1
  | warn => 2
  | info => 3
  | debug => 4
  | trace => 5

/-- The lower-case name of a level. -/
def name : Level → String
  | off => "off"
  | error => "error"
  | warn => "warn"
  | info => "info"
  | debug => "debug"
  | trace => "trace"

/-- Reads a level's name, in any mixture of upper and lower case. -/
def parse? (text : String) : Option Level :=
  match text.toLower with
  | "off" => some off
  | "error" => some error
  | "warn" => some warn
  | "info" => some info
  | "debug" => some debug
  | "trace" => some trace
  | _ => none

/-- The case of the letters does not matter. -/
theorem parse?_of_toLower {text : String} {level : Level} (h : text.toLower = level.name) :
    parse? text = some level := by
  cases level <;> simp [parse?, h, name]

end Level

/-- What is worth noting about a machine and its host. -/
inductive Entry where
  /-- A machine was built. -/
  | created (config : Config)
  /-- A program image was put into memory. -/
  | loaded (size : Nat)
  /-- A cycle is about to execute an opcode, with the registers as they are before it. -/
  | cycle (opcode : Opcode) (registers : Vector UInt8 16) (index pc : UInt16)
  /-- An opcode that stands for no instruction is left out. -/
  | leftOut (opcode : Opcode) (pc : UInt16)
  /-- A run of cycles was stopped from outside. -/
  | stopped (cycles : Nat)
  /-- The host has read a program and loaded it. -/
  | started (name : String) (size : Nat)
  /-- The host was asked to end. -/
  | closed
  deriving DecidableEq

namespace Entry

/-- The level an entry is logged at. -/
def level : Entry → Level
  | created _ | loaded _ | stopped _ => .debug
  | cycle .. => .trace
  | leftOut .. => .warn
  | started .. | closed => .info

/-- A configuration, field by field. -/
def configText (c : Config) : String :=
  let unknown := match c.unknown with
    | .skip => "Skip"
    | .fail => "Fail"
  let edges := match c.edges with
    | .wrap => "Wrap"
    | .clip => "Clip"
    | .fault => "Fault"
  let overflow := match c.overflow with
    | .wrap => "Wrap"
    | .setFlag => "SetFlag"
  "Config \x7b unknown_opcode: " ++ unknown ++ ", sprite_bounds: " ++ edges
    ++ ", index_overflow: " ++ overflow ++ ", preload_font: " ++ toString c.preloadFont ++ " \x7d"

/-- Four upper-case digits. -/
def wordText (w : UInt16) : String :=
  String.ofList (Hex.fixed .upper 4 w.toNat)

/-- Two upper-case digits. -/
def byteText (b : UInt8) : String :=
  String.ofList (Hex.fixed .upper 2 b.toNat)

/-- Registers in order, in brackets. -/
def registersText (registers : Vector UInt8 16) : String :=
  "[" ++ ", ".intercalate (registers.toList.map byteText) ++ "]"

/-- The wording of an entry. -/
def text : Entry → String
  | created config => "created machine with " ++ configText config
  | loaded size => "loaded " ++ toString size ++ " byte ROM at " ++ Hex.address 0x200
  | cycle op registers index pc =>
      wordText op.word ++ " v" ++ registersText registers ++ " i" ++ wordText index
        ++ " pc" ++ wordText pc
  | leftOut op pc => "opcode " ++ wordText op.word ++ " at " ++ wordText pc ++ " is not implemented"
  | stopped cycles => "stopped after " ++ toString cycles ++ " cycles"
  | started name size => "loaded " ++ name ++ " (" ++ toString size ++ " bytes)"
  | closed => "window closed, shutting down"

/-- An entry as one line: its level in upper case, and its wording. -/
def line (e : Entry) : String :=
  e.level.name.toUpper ++ " " ++ e.text

end Entry

/-- The entries that are logged at a threshold or are more severe. -/
def visible (threshold : Level) (entries : List Entry) : List Entry :=
  entries.filter fun e => decide (e.level.rank ≤ threshold.rank)

end ChipEight.Log
