/-
  The kinds of values a program computes with.
-/
namespace Cadence

inductive Tag where
  | int
  | double
  | bool
  | pitch
  | sound
  | array
  deriving DecidableEq, Inhabited, Repr

namespace Tag

def text : Tag → String
  | .int => "int"
  | .double => "double"
  | .bool => "bool"
  | .pitch => "pitch"
  | .sound => "sound"
  | .array => "array"

/-- The kinds that a declaration may name, alone or as the element of an array. -/
def scalars : List Tag := [.int, .double, .bool, .pitch, .sound]

def ofScalarText? (s : String) : Option Tag := scalars.find? fun t => t.text == s

end Tag

end Cadence
