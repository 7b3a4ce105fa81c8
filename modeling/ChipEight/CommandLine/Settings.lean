import ChipEight.CommandLine.Word
import ChipEight.Config
import ChipEight.Log
import ChipEight.Text.Decimal

/-!
The settings of the program, and reading them off its command line. Words are read from left to
right into a `Draft` of the settings, and only a complete draft becomes `Settings`. A name or a
value that stands as a word of its own is at first only held: it is settled when the next word that
has a meaning is taken in, or at the end. So a word without a meaning is reported before anything
that is wrong with the word in front of it.
-/
namespace ChipEight.CommandLine

/-- Everything a command line decides. -/
structure Settings where
  /-- The name of the program to run. -/
  rom : String
  config : Config
  /-- Cycles in a second. -/
  clockHz : UInt32
  /-- The size of a display cell on the screen. -/
  scale : UInt32
  logLevel : Log.Level
  deriving DecidableEq

/-- Why a command line does not give settings. -/
inductive UsageError where
  /-- An option that there is not, or a second plain word. -/
  | unknownArgument (word : String)
  /-- An option given twice. -/
  | repeated (name : String)
  /-- A value attached to an option that takes none. -/
  | unexpectedValue (name : String)
  /-- An option that takes a value, without one. -/
  | missingValue (name : String)
  /-- A value that its option does not take. -/
  | badValue (name text : String)
  /-- The name of the program is empty. -/
  | emptyRom
  /-- The name of the program is missing. -/
  | missingRom
  /-- Not an error as such: the usage was asked for. -/
  | helpRequested
  deriving DecidableEq

/-- The options that take no value. -/
inductive Switch where
  | strict
  | indexOverflowFlag
  | noFont
  | help
  deriving DecidableEq

/-- The options that take a value. -/
inductive Parameter where
  | spriteBounds
  | clockHz
  | scale
  | logLevel
  deriving DecidableEq

/-- The spelling of a switch, without its dashes. -/
def Switch.name : Switch → String
  | strict => "strict"
  | indexOverflowFlag => "index-overflow-flag"
  | noFont => "no-font"
  | help => "help"

/-- The spelling of a parameter, without its dashes. -/
def Parameter.name : Parameter → String
  | spriteBounds => "sprite-bounds"
  | clockHz => "clock-hz"
  | scale => "scale"
  | logLevel => "log-level"

/-- The switch with a name. -/
def Switch.ofName? (name : String) : Option Switch :=
  [strict, indexOverflowFlag, noFont, help].find? fun s => s.name == name

/-- The parameter with a name. -/
def Parameter.ofName? (name : String) : Option Parameter :=
  [spriteBounds, clockHz, scale, logLevel].find? fun p => p.name == name

/-- What has been read but not settled. -/
inductive Held where
  /-- The name of the program. -/
  | rom (text : String)
  /-- The value of a parameter, or only the parameter if its value is still to come. -/
  | valueOf (p : Parameter) (text : Option String)
  deriving DecidableEq

/-- What the words read so far have decided. -/
structure Draft where
  rom : Option String := none
  strict : Bool := false
  indexOverflowFlag : Bool := false
  noFont : Bool := false
  edges : Option EdgePolicy := none
  clockHz : Option UInt32 := none
  scale : Option UInt32 := none
  logLevel : Option Log.Level := none
  held : Option Held := none
  /-- All words to come are plain, whatever their spelling. -/
  plainOnly : Bool := false
  deriving DecidableEq

namespace Draft

/-- Takes in the name of the program, which must not be empty. -/
def setRom (d : Draft) (text : String) : Except UsageError Draft :=
  if text = "" then .error .emptyRom else .ok { d with rom := some text }

/-- Takes in a switch, which may be given once. -/
def turnOn (d : Draft) (s : Switch) : Except UsageError Draft :=
  match s with
  | .strict => if d.strict then .error (.repeated s.name) else .ok { d with strict := true }
  | .indexOverflowFlag =>
      if d.indexOverflowFlag then .error (.repeated s.name)
      else .ok { d with indexOverflowFlag := true }
  | .noFont => if d.noFont then .error (.repeated s.name) else .ok { d with noFont := true }
  | .help => .error .helpRequested

/-- A value that has not been given before, read from its text. -/
def fresh {α : Type} (p : Parameter) (old : Option α) (text : String) (value : Option α) :
    Except UsageError (Option α) :=
  if old.isSome then .error (.repeated p.name)
  else if value.isNone then .error (.badValue p.name text)
  else .ok value

/-- Takes in the value of a parameter, which may be given once. -/
def supply (d : Draft) (p : Parameter) (text : String) : Except UsageError Draft :=
  match p with
  | .spriteBounds =>
      (fresh p d.edges text (EdgePolicy.parse text).toOption).map ({ d with edges := · })
  | .clockHz =>
      (fresh p d.clockHz text (Decimal.positive32? text)).map ({ d with clockHz := · })
  | .scale => (fresh p d.scale text (Decimal.positive32? text)).map ({ d with scale := · })
  | .logLevel =>
      (fresh p d.logLevel text (Log.Level.parse? text)).map ({ d with logLevel := · })

/-- Takes in what is held. -/
def settle (d : Draft) : Except UsageError Draft :=
  match d.held with
  | none => .ok d
  | some (.rom text) => { d with held := none }.setRom text
  | some (.valueOf p none) => .error (.missingValue p.name)
  | some (.valueOf p (some text)) => { d with held := none }.supply p text

/-- Settles what is held, and holds something else. -/
def hold (d : Draft) (h : Held) : Except UsageError Draft :=
  d.settle.map ({ · with held := some h })

/-- Whether the name of the program has been read, settled or not. -/
def hasRom (d : Draft) : Bool :=
  match d.rom, d.held with
  | some _, _ | none, some (.rom _) => true
  | _, _ => false

/-- Reads the name of the program, for which there is room once. -/
def takeRom (d : Draft) (word : String) : Except UsageError Draft :=
  if d.hasRom then .error (.unknownArgument word) else d.hold (.rom word)

/-- Reads a plain word: the value of a parameter that still lacks it, or else the name of the
program. -/
def takePlain (d : Draft) (word : String) : Except UsageError Draft :=
  match d.held with
  | some (.valueOf p none) => .ok { d with held := some (.valueOf p (some word)) }
  | _ => d.takeRom word

/-- Reads an option with a name, and the value attached to it if there is one. -/
def takeLong (d : Draft) (word name : String) (value : Option String) :
    Except UsageError Draft :=
  match Switch.ofName? name, Parameter.ofName? name, value with
  | some s, _, none => d.settle.bind (·.turnOn s)
  | some _, _, some _ => .error (.unexpectedValue name)
  | none, some p, some text => d.settle.bind (·.supply p text)
  | none, some p, none => d.hold (.valueOf p none)
  | none, none, _ => .error (.unknownArgument word)

/-- Reads letters behind one dash. Only the first counts: it asks for help, or has no meaning. -/
def takeShort (d : Draft) (word : String) (first : Char) : Except UsageError Draft :=
  if first = 'h' then d.settle.bind (·.turnOn .help) else .error (.unknownArgument word)

/-- Reads the next word. -/
def take (d : Draft) (word : String) : Except UsageError Draft :=
  if d.plainOnly then d.takeRom word
  else
    match Word.ofString word with
    | .plain text => d.takePlain text
    | .terminator => .ok { d with plainOnly := true }
    | .long name value => d.takeLong word name value
    | .short first _ => d.takeShort word first

/-- The policies a draft decides on. -/
def config (d : Draft) : Config where
  unknown := if d.strict then .fail else .skip
  edges := d.edges.getD .wrap
  overflow := if d.indexOverflowFlag then .setFlag else .wrap
  preloadFont := !d.noFont

/-- The settings, if the draft names a program. What was not given takes its default. -/
def finish (d : Draft) : Except UsageError Settings :=
  match d.rom with
  | none => .error .missingRom
  | some rom =>
      .ok {
        rom
        config := d.config
        clockHz := d.clockHz.getD 500
        scale := d.scale.getD 10
        logLevel := d.logLevel.getD .info }

end Draft

/-- Reads the words behind the name of the program. -/
def Settings.parse (words : List String) : Except UsageError Settings := do
  let draft ← words.foldlM Draft.take {}
  let settled ← draft.settle
  settled.finish

/-- The wording shown for a command line that gives no settings. -/
def UsageError.message : UsageError → String
  | unknownArgument word => "unexpected argument '" ++ word ++ "'"
  | repeated name => "the argument '--" ++ name ++ "' cannot be used multiple times"
  | unexpectedValue name => "the argument '--" ++ name ++ "' takes no value"
  | missingValue name => "a value is required for '--" ++ name ++ "'"
  | badValue name text => "invalid value '" ++ text ++ "' for '--" ++ name ++ "'"
  | emptyRom => "the name of the ROM is empty"
  | missingRom => "the name of a ROM is required"
  | helpRequested =>
      "usage: [--strict] [--sprite-bounds wrap|clip|fault] [--index-overflow-flag] [--no-font] "
        ++ "[--clock-hz N] [--scale N] [--log-level LEVEL] ROM"

end ChipEight.CommandLine
