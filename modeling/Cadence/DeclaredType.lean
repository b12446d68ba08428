/-
  The types a declaration may name: a scalar kind, or an array of one.
-/
import Cadence.Value.Basic
import Cadence.Text.Blank

namespace Cadence

inductive DeclaredType where
  | scalar (tag : Tag)
  | arrayOf (tag : Tag)
  deriving DecidableEq, Repr

namespace DeclaredType

def kindText : DeclaredType → String
  | .scalar tag => tag.text
  | .arrayOf _ => Tag.array.text

def text : DeclaredType → String
  | .scalar tag => tag.text
  | .arrayOf tag => tag.text ++ "[]"

/-- Reads a type name. White space may surround it, and stand before the brackets. -/
def ofText (s : String) : Except Failure DeclaredType :=
  let unknown := Except.error (.fault (.unknownType s))
  let name := Text.trim s
  match name.toList.reverse with
  | ']' :: '[' :: rest =>
      match Tag.ofScalarText? (Text.trim (String.ofList rest.reverse)) with
      | some tag => .ok (.arrayOf tag)
      | none => unknown
  | _ =>
      match Tag.ofScalarText? name with
      | some tag => .ok (.scalar tag)
      | none => unknown

/-- What a variable of the type starts with. An array starts with one element. -/
def initial : DeclaredType → Except Failure Value
  | .scalar tag => Value.default tag
  | .arrayOf tag => (Value.default tag).map fun v => .array #[v]

end DeclaredType

/-- The default of a kind given by name. -/
def Value.defaultNamed (s : String) : Except Failure Value :=
  match Tag.ofScalarText? s with
  | some tag => Value.default tag
  | none => .error (.fault (.noDefault s))

end Cadence
