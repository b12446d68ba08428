/-
  The values of the language: integers, doubles, booleans, pitches, sounds and arrays.

  Two further shapes occur beside them. A reference stands for an element of an array that a
  variable holds; loops bind their variable to one. A foreign value is a JSON value that a literal
  carried in without being converted; it has no kind, and using it is a fault.
-/
import Cadence.Pitch

namespace Cadence

/-- A chord played for `duration` beats. Its pitch names are kept as given. -/
structure Sound where
  pitches : List Json
  duration : Float
  amplitude : Int
  deriving Inhabited, Repr

/-- The JSON values that are no values of the language. -/
inductive Foreign where
  | null
  | text (s : String)
  | list (items : List Json)
  | object (fields : List (String × Json))
  deriving Inhabited, Repr

def Foreign.toJson : Foreign → Json
  | .null => .null
  | .text s => .text s
  | .list items => .list items
  | .object fields => .object fields

inductive Value where
  | int (n : Int)
  | double (x : Float)
  | bool (b : Bool)
  | pitch (name : Json)
  | sound (s : Sound)
  | array (items : Array Value)
  | ref (array : Name) (index : Int)
  | foreign (f : Foreign)
  deriving Inhabited, Repr

namespace Value

def ofJson : Json → Value
  | .null => .foreign .null
  | .bool b => .bool b
  | .int n => .int n
  | .double x => .double x
  | .text s => .foreign (.text s)
  | .list items => .foreign (.list items)
  | .object fields => .foreign (.object fields)

/-! A value as what it is, if it is of a kind. -/

def int? : Value → Option Int
  | .int n => some n
  | _ => none

def double? : Value → Option Float
  | .double x => some x
  | _ => none

def sound? : Value → Option Sound
  | .sound s => some s
  | _ => none

def array? : Value → Option (Array Value)
  | .array items => some items
  | _ => none

def isRef : Value → Bool
  | .ref .. => true
  | _ => false

@[simp] theorem int?_eq_some {v : Value} {n : Int} : v.int? = some n ↔ v = .int n := by
  cases v <;> simp [int?]

@[simp] theorem double?_eq_some {v : Value} {x : Float} : v.double? = some x ↔ v = .double x := by
  cases v <;> simp [double?]

@[simp] theorem sound?_eq_some {v : Value} {s : Sound} : v.sound? = some s ↔ v = .sound s := by
  cases v <;> simp [sound?]

@[simp] theorem array?_eq_some {v : Value} {items : Array Value} :
    v.array? = some items ↔ v = .array items := by
  cases v <;> simp [array?]

/-- The word for the shape of a value in messages about misplaced values. -/
def kindName : Value → String
  | .int _ => "int"
  | .double _ => "float"
  | .bool _ => "bool"
  | .pitch _ => "PitchVal"
  | .sound _ => "SoundVal"
  | .array _ => "ArrayVal"
  | .ref .. => "ElementRef"
  | .foreign f => f.toJson.kindName

/-- The kind of a value. References and foreign values have none. -/
def tag : Value → Except Failure Tag
  | .int _ => .ok .int
  | .double _ => .ok .double
  | .bool _ => .ok .bool
  | .pitch _ => .ok .pitch
  | .sound _ => .ok .sound
  | .array _ => .ok .array
  | v => .error (.fault (.unclassified v.kindName))

/-- The kind of an array's elements is the kind of its first one. -/
def elementTag (items : Array Value) : Except Failure Tag :=
  match items[0]? with
  | some v => v.tag
  | none => .error (.defect .noFirstItem)

/-- Only the boolean true holds. -/
def isTrue : Value → Bool
  | .bool b => b
  | _ => false

/-- The value that a variable of a scalar kind starts with. -/
def default : Tag → Except Failure Value
  | .int => .ok (.int 0)
  | .double => .ok (.double 0)
  | .bool => .ok (.bool false)
  | .pitch => .ok (.pitch (.text "C0"))
  | .sound => .ok (.sound { pitches := [], duration := 0, amplitude := 0 })
  | .array => .error (.fault (.noDefault Tag.array.text))

/-- How many arrays may still be entered, one inside the other; `none` is no bound. -/
abbrev Room := Option Nat

/-- The room inside an array. -/
def Room.enter : Room → Except Failure Room
  | none => .ok none
  | some 0 => .error (.fault .nesting)
  | some (n + 1) => .ok (some n)

/-- The value that fills a gap before `v`: the default of its kind, and for an array one element
    deep all the way down. -/
def defaultLike (room : Room) : Value → Except Failure Value
  | .array ⟨[]⟩ => .error (.defect .noFirstItem)
  | .array ⟨v :: _⟩ => do
      let inside ← room.enter
      let d ← defaultLike inside v
      return .array #[d]
  | v => v.tag >>= default

/-- An array literal: not empty, and every element of the kind of the first. -/
def ofItems : List Value → Except Failure Value
  | [] => .error (.fault .emptyArray)
  | first :: rest => do
      let expected ← first.tag
      let rec check (position : Nat) : List Value → Except Failure Unit
        | [] => .ok ()
        | v :: vs => do
            let got ← v.tag
            if got = expected then check (position + 1) vs
            else .error (.fault (.mixedArray position got expected))
      check 1 rest
      return .array (first :: rest).toArray

end Value

end Cadence
