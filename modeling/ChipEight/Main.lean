import ChipEight.Display.Lines
import ChipEight.Host.Session

/-!
The program: plays a ROM in a terminal. Frames are drawn on standard output, the log goes to
standard error, and key events are read from standard input, one on each line: `down` or `up` and
the name of a key, or `quit`. The end of the input quits too.
-/
namespace ChipEight.Terminal

open Host

/-- Reads the bytes of a file. -/
def readFile (name : String) : IO (Except ReadError (List UInt8)) :=
  try
    return .ok (← IO.FS.readBinFile name).data.toList
  catch
    | .noFileOrDirectory .. => return .error .notFound
    | .inappropriateType _ 20 _ => return .error .notADirectory
    | .inappropriateType _ 21 _ => return .error .isADirectory
    | e => return .error (.other (toString e))

/-- Puts the events of standard input into a queue, until it ends. -/
partial def listen (input : IO.FS.Stream) (queue : IO.Ref (List Event)) : IO Unit := do
  let line ← input.getLine
  if line.isEmpty then
    queue.modify (· ++ [.quit])
  else
    queue.modify (· ++ [Event.ofLine line])
    listen input queue

/-- Shows what a session has drawn and logged, and forgets it. -/
def flush (level : Log.Level) (s : Session) : IO Session := do
  for frame in s.screen.shown do
    IO.println ("\x1b[H" ++ "\n".intercalate frame.blocks)
  for entry in Log.visible level s.log.toList do
    IO.eprintln entry.line
  return { s with log := #[], screen := { s.screen with shown := #[] } }

/-- Goes through the turns of a session until it ends. The timers fall sixty times in a second. -/
partial def play (settings : CommandLine.Settings) (queue : IO.Ref (List Event)) (ticksDone : Nat)
    (s : Session) : IO Session := do
  let s ← flush settings.logLevel s.refresh
  if s.ending.isSome then return s
  let events ← queue.swap []
  let due := (← IO.monoMsNow) * 60 / 1000
  let s ← flush settings.logLevel (s.respond events (due - ticksDone))
  if s.ending.isSome then return s
  if s.pace = .clocked then IO.sleep (UInt32.ofNat (1000 / settings.clockHz.toNat))
  play settings queue due s

/-- Plays a ROM with these settings, and says how it ended. -/
def run (settings : CommandLine.Settings) : IO UInt32 := do
  let file ← readFile settings.rom
  let random := RandomBytes.ofList (← IO.getRandomBytes 65536).data.toList
  let s ← flush settings.logLevel (Session.start settings file (.fresh none 0) random)
  let queue ← IO.mkRef []
  let _ ← IO.asTask (listen (← IO.getStdin) queue)
  let s ← if s.ending.isSome then pure s else
    play settings queue ((← IO.monoMsNow) * 60 / 1000) s
  match s.ending with
  | some (.failed why) =>
      IO.eprintln ("Error: " ++ why.message)
      return 1
  | _ => return 0

end ChipEight.Terminal

open ChipEight in
/-- Reads the command line and plays the ROM it names. -/
def main (args : List String) : IO UInt32 :=
  match CommandLine.Settings.parse args with
  | .ok settings => Terminal.run settings
  | .error .helpRequested => do
      IO.println CommandLine.UsageError.helpRequested.message
      return 0
  | .error e => do
      IO.eprintln ("error: " ++ e.message)
      return 2
