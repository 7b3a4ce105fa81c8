/-!
The keyboard: the sixteen keys of the pad lie in the left four columns of a keyboard's letters and
digits.

    1 2 3 C        1 2 3 4
    4 5 6 D   on   Q W E R
    7 8 9 E        A S D F
    A 0 B F        Z X C V
-/
namespace ChipEight.Host

/-- A key of the keyboard, by its name: a letter, `Num1` for a digit, `Escape` and so on. -/
structure Key where
  name : String
  deriving DecidableEq

namespace Key

/-- The key that ends a session. -/
def escape : Key := ⟨"Escape"⟩

/-- The key that lifts the pace while it is down. -/
def space : Key := ⟨"Space"⟩

/-- Where the keys of the pad lie. -/
def layout : List (String × UInt8) :=
  [("Num1", 0x1), ("Num2", 0x2), ("Num3", 0x3), ("Num4", 0xC),
   ("Q", 0x4), ("W", 0x5), ("E", 0x6), ("R", 0xD),
   ("A", 0x7), ("S", 0x8), ("D", 0x9), ("F", 0xE),
   ("Z", 0xA), ("X", 0x0), ("C", 0xB), ("V", 0xF)]

/-- The key of the pad that lies on a key of the keyboard. -/
def pad? (key : Key) : Option UInt8 :=
  layout.lookup key.name

end Key
end ChipEight.Host
