import ChipEight.Display.Picture

/-!
The screen: a window that shows pictures of frames. Each thing a screen is asked to do passes
through stages, any of which may fail; a `ScreenFault` says which one does, and when. A screen
remembers what it has shown.
-/
namespace ChipEight.Host

/-- What a screen is asked for, in order: the first five once at the start, the others for each
frame. -/
inductive Stage where
  | init
  | video
  | window
  | canvas
  | events
  | texture
  | lock
  | copy
  deriving DecidableEq

/-- A stage that fails once so many frames have been shown. -/
structure ScreenFault where
  stage : Stage
  message : String
  after : Nat
  deriving DecidableEq

/-- A window, by its title and its size. -/
structure Window where
  title : String
  width : UInt32
  height : UInt32
  deriving DecidableEq

/-- A screen and what it has shown so far. -/
structure Screen where
  fault : Option ScreenFault
  /-- The bytes between the rows of its buffer. -/
  padding : Nat
  window : Option Window
  shown : Array Frame

namespace Screen

/-- A screen that has not been asked for anything. -/
def fresh (fault : Option ScreenFault) (padding : Nat) : Screen :=
  ⟨fault, padding, none, #[]⟩

/-- Why a stage fails now, if it does. -/
def failure? (s : Screen) (stage : Stage) : Option String :=
  s.fault.bind fun f =>
    if f.stage = stage ∧ f.after = s.shown.size then some f.message else none

/-- Why the first of some stages that fails now does so. -/
def firstFailure? (s : Screen) (stages : List Stage) : Option String :=
  stages.findSome? s.failure?

/-- The window for cells of this size. Its sizes are 32-bit words. -/
def windowFor (scale : UInt32) : Window :=
  ⟨"Chippy", 64 * scale, 32 * scale⟩

/-- Opens the window and the event queue, unless a stage fails on the way. -/
def openWindow (s : Screen) (scale : UInt32) : Screen × Option String :=
  match s.firstFailure? [.init, .video, .window] with
  | some message => (s, some message)
  | none =>
      let s := { s with window := some (windowFor scale) }
      (s, s.firstFailure? [.canvas, .events])

/-- What is seen of a frame: it is written into a buffer with padded rows, and read off that. -/
def seen (padding : Nat) (frame : Frame) : Option Frame :=
  let pitch := Picture.rowSize + padding
  (Picture.blit? pitch frame (Array.replicate (pitch * Frame.height) 0)).map (Picture.shown pitch)

/-- Shows a frame, unless a stage fails on the way. -/
def present (s : Screen) (frame : Frame) : Screen × Option String :=
  match s.firstFailure? [.texture, .lock, .copy] with
  | some message => (s, some message)
  | none => ({ s with shown := s.shown.push ((seen s.padding frame).getD .blank) }, none)

end Screen
end ChipEight.Host
