/-
  JSON values. Integers have any size and are never confused with doubles, and an object keeps
  its fields in the order in which their keys first appeared.
-/
import Cadence.Double.Basic

namespace Cadence

inductive Json where
  | null
  | bool (b : Bool)
  | int (n : Int)
  | double (x : Float)
  | text (s : String)
  | list (items : List Json)
  | object (fields : List (String × Json))
  deriving Inhabited, Repr

namespace Json

/-- The word for a kind of JSON value in messages about misplaced values. -/
def kindName : Json → String
  | .null => "NoneType"
  | .bool _ => "bool"
  | .int _ => "int"
  | .double _ => "float"
  | .text _ => "str"
  | .list _ => "list"
  | .object _ => "dict"

/-- The value under a key. -/
def field? (key : String) : List (String × Json) → Option Json
  | [] => none
  | (k, v) :: rest => if k = key then some v else field? key rest

/-- Sets the value under a key: in place if the key is there, at the end if not. -/
def setField (key : String) (value : Json) : List (String × Json) → List (String × Json)
  | [] => [(key, value)]
  | (k, v) :: rest =>
      if k = key then (k, value) :: rest else (k, v) :: setField key value rest

/-- The values that an iteration over a JSON value meets: the items of a list, the characters
    of a text, the keys of an object. -/
def items? : Json → Option (List Json)
  | .list items => some items
  | .text s => some (s.toList.map fun c => .text c.toString)
  | .object fields => some (fields.map fun f => .text f.1)
  | _ => none

/-- Equality of an integer with a double, without rounding. -/
def intAlike (n : Int) (x : Float) : Bool := Double.compareInt? x n == some .eq

def bit (b : Bool) : Int := if b then 1 else 0

def bothNaN : Json → Json → Bool
  | .double x, .double y => x.isNaN && y.isNaN
  | _, _ => false

mutual
/-- Equality by value: numbers are equal when they are the same number, whatever their kind
    (a boolean counts as 0 or 1), and the order of an object's fields does not matter. NaN differs
    from itself, but not inside a list or an object. -/
def alike : Json → Json → Bool
  | .null, .null => true
  | .bool a, .bool b => a == b
  | .bool a, .int n => bit a == n
  | .bool a, .double x => intAlike (bit a) x
  | .int n, .bool b => n == bit b
  | .int m, .int n => m == n
  | .int n, .double x => intAlike n x
  | .double x, .bool b => intAlike (bit b) x
  | .double x, .int n => intAlike n x
  | .double x, .double y => x == y
  | .text s, .text t => s == t
  | .list xs, .list ys => alikeItems xs ys
  | .object fs, .object gs => fs.length == gs.length && alikeFields fs gs
  | _, _ => false

def alikeItems : List Json → List Json → Bool
  | [], [] => true
  | x :: xs, y :: ys => (alike x y || bothNaN x y) && alikeItems xs ys
  | _, _ => false

/-- Every field of the first list is in the second. -/
def alikeFields : List (String × Json) → List (String × Json) → Bool
  | [], _ => true
  | (k, v) :: rest, fields =>
      (match field? k fields with
        | some w => alike v w || bothNaN v w
        | none => false) && alikeFields rest fields
end

end Json

end Cadence
