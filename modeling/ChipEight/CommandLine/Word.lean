/-!
The words of a command line: what a word is by its spelling alone, whatever it may mean.
-/
namespace ChipEight.CommandLine

/-- A word by its spelling. -/
inductive Word where
  /-- A word that is no option: it does not begin with a dash, or is nothing but one. -/
  | plain (text : String)
  /-- Two dashes alone: all words behind them are plain. -/
  | terminator
  /-- Two dashes and a name, which ends at the first equals sign if there is one; what follows the
  sign is an attached value. -/
  | long (name : String) (value : Option String)
  /-- One dash and letters, each an option of its own. -/
  | short (first : Char) (more : List Char)
  deriving DecidableEq

namespace Word

/-- The value attached to a name, if the name was ended by an equals sign. -/
def attached? : List Char → Option String
  | [] => none
  | _ :: value => some (String.ofList value)

/-- Reads a word by its spelling. -/
def ofString (s : String) : Word :=
  match s.toList with
  | ['-', '-'] => .terminator
  | '-' :: '-' :: rest =>
      .long (String.ofList (rest.takeWhile (· ≠ '='))) (attached? (rest.dropWhile (· ≠ '=')))
  | '-' :: c :: rest => .short c rest
  | _ => .plain s

end Word
end ChipEight.CommandLine
