import ChipEight.Host.Keyboard

/-!
Events, and scripts of them: what a host's event queue gives at each poll. A script is read from
the front; at its end every poll asks to quit.
-/
namespace ChipEight.Host

/-- An event a host polls. -/
inductive Event where
  /-- The window is to be closed. -/
  | quit
  /-- An event of no interest. -/
  | other
  /-- A key goes down; `none` is a key without a name. -/
  | keyDown (key : Option Key)
  /-- A key goes up. -/
  | keyUp (key : Option Key)
  deriving DecidableEq

/-- Reads an event off a line: `quit`, or `down` or `up` and the name of a key. -/
def Event.ofLine (line : String) : Event :=
  match line.trimAscii.toString.splitOn " " with
  | ["quit"] => .quit
  | ["down", name] => .keyDown (some ⟨name⟩)
  | ["up", name] => .keyUp (some ⟨name⟩)
  | _ => .other

/-- One item of a script. -/
inductive ScriptItem where
  /-- One poll that gives these events. -/
  | events (events : List Event)
  /-- That many polls without an event. -/
  | quiet (polls : Nat)
  /-- Polls without an event until that many frames have been shown. -/
  | untilShown (frames : Nat)
  deriving DecidableEq

/-- The events of the next poll, when so many frames have been shown, and what is left of the
script. An item stays until a poll passes beyond it. -/
def poll (shown : Nat) : List ScriptItem → List Event × List ScriptItem
  | [] => ([.quit], [])
  | .events events :: rest => (events, rest)
  | .quiet 0 :: rest => poll shown rest
  | .quiet (polls + 1) :: rest => ([], .quiet polls :: rest)
  | .untilShown frames :: rest =>
      if shown < frames then ([], .untilShown frames :: rest) else poll shown rest

end ChipEight.Host
