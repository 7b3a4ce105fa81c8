/-!
The choices a machine is built with: what an undecodable opcode does, where sprite cells past
the display edges go, whether moving the index register reports leaving the address space, and
whether the digit sprites are put into memory.
-/
namespace ChipEight

/-- What an opcode that stands for no instruction does. -/
inductive UnknownPolicy where
  /-- The machine goes on with the next opcode. -/
  | skip
  /-- The cycle fails. -/
  | fail
  deriving DecidableEq

/-- Where a lit sprite cell past the right or the bottom edge goes. -/
inductive EdgePolicy where
  /-- To the opposite edge: coordinates count modulo the display's size. -/
  | wrap
  /-- Nowhere. -/
  | clip
  /-- The whole draw fails. -/
  | fault
  deriving DecidableEq

/-- Whether adding to the index register reports a sum above the 12-bit address space. -/
inductive OverflowPolicy where
  /-- The flag register is left alone. -/
  | wrap
  /-- The flag register says whether the sum was above `0xFFF`. -/
  | setFlag
  deriving DecidableEq

/-- The choices a machine is built with. -/
structure Config where
  unknown : UnknownPolicy := .skip
  edges : EdgePolicy := .wrap
  overflow : OverflowPolicy := .wrap
  /-- Put the digit sprites into the reserved region when the machine is built. -/
  preloadFont : Bool := true
  deriving DecidableEq

namespace EdgePolicy

/-- A text that names no edge policy, with its ASCII letters lowered. -/
structure UnknownName where
  lowered : String
  deriving DecidableEq

/-- The wording shown for a text that names no edge policy. -/
def UnknownName.message (e : UnknownName) : String :=
  "unknown sprite bounds mode '" ++ e.lowered ++ "'"

/-- The lower-case name of a policy. -/
def name : EdgePolicy → String
  | wrap => "wrap"
  | clip => "clip"
  | fault => "fault"

/-- Reads a policy's name, in any mixture of upper and lower case. -/
def parse (text : String) : Except UnknownName EdgePolicy :=
  match text.toLower with
  | "wrap" => .ok wrap
  | "clip" => .ok clip
  | "fault" => .ok fault
  | other => .error ⟨other⟩

/-- The case of the letters does not matter. -/
theorem parse_of_toLower {text : String} {p : EdgePolicy} (h : text.toLower = p.name) :
    parse text = .ok p := by
  cases p <;> simp [parse, h, name]

end EdgePolicy
end ChipEight
