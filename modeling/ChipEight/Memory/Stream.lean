import ChipEight.Memory.Basic

/-!
Loading from a stream: a stream is what its reads deliver. All of it is gathered before anything
is loaded, so a stream that breaks off loads nothing.
-/
namespace ChipEight

/-- What one stretch of a stream delivers to its reader. -/
inductive Chunk where
  /-- Bytes, over any number of reads. No bytes at all are the end of the stream. -/
  | data (bytes : List UInt8)
  /-- A read that was interrupted and is tried again. -/
  | interrupted
  /-- A read that failed. -/
  | broken (cause : String)
  deriving DecidableEq

/-- The bytes before the end of a stream, unless a read fails first. -/
def Chunk.gather : List Chunk → Except Fault (List UInt8)
  | [] => .ok []
  | .data [] :: _ => .ok []
  | .data bytes :: rest => (gather rest).map (bytes ++ ·)
  | .interrupted :: rest => gather rest
  | .broken cause :: _ => .error (.io cause)

/-- The number of bytes before the end of a stream, none if a read fails first. -/
def Chunk.total (stream : List Chunk) : Nat :=
  match gather stream with
  | .ok image => image.length
  | .error _ => 0

/-- Loads the program image a stream delivers. -/
def Memory.loadFrom (m : Memory) (stream : List Chunk) : Except Fault Memory := do
  let image ← Chunk.gather stream
  m.load image

end ChipEight
