/-
  Literals. In a program tree a literal is a JSON value and the name of a kind. A pitch keeps its
  name unchecked, a sound is put together from its three parts, a double is converted; a literal
  of any other kind keeps its JSON value as it is.
-/
import Cadence.Operator
import Cadence.Value.Text

namespace Cadence

namespace Json

/-- The double that a JSON value stands for: a number, a boolean or a written number. -/
def toDouble : Json → Except Failure Float
  | .int n => Integer.toDouble n
  | .double x => .ok x
  | .bool b => .ok (if b then 1 else 0)
  | .text s =>
      match Text.readDouble? s with
      | some x => .ok x
      | none => .error (.defect (.notDouble s))
  | other => .error (.defect (.noDouble other.kindName))

/-- The integer that a JSON value stands for. A double is cut off toward zero. -/
def toInt : Json → Except Failure Int
  | .int n => .ok n
  | .bool b => .ok (bit b)
  | .double x =>
      match Double.truncate? x with
      | some n => .ok n
      | none => .error (.defect (if x.isNaN then .nanToInt else .infinityToInt))
  | .text s =>
      match Text.readInt s with
      | .ok n => .ok n
      | .error .malformed => .error (.defect (.notInt s))
      | .error (.tooLong digits) => .error (.defect (.tooManyDigits digits))
  | other => .error (.defect (.noInt other.kindName))

/-- The part of a JSON value under a key. Only objects have such parts. -/
def part (key : String) : Json → Except Failure Json
  | .object fields =>
      match field? key fields with
      | some v => .ok v
      | none => .error (.defect (.missingKey key))
  | .text _ => .error (.defect .textIndexedByText)
  | .list _ => .error (.defect .listIndexedByText)
  | other => .error (.defect (.notSubscriptable other.kindName))

/-- The items of a JSON value that is given as a list. -/
def iterated (j : Json) : Except Failure (List Json) :=
  match j.items? with
  | some items => .ok items
  | none => .error (.defect (.notIterable j.kindName))

end Json

/-- The content of a literal in a program tree. -/
inductive Literal where
  | pitch (name : Json)
  | sound (s : Sound)
  | plain (j : Json)
  deriving Inhabited, Repr

namespace Literal

/-- Converts the value of a literal as its kind asks. -/
def ofJson (value kind : Json) : Except Failure Literal :=
  match kind with
  | .text "pitch" => .ok (.pitch value)
  | .text "sound" => do
      let pitches ← value.part "pitches" >>= Json.iterated
      let duration ← value.part "duration" >>= Json.toDouble
      let amplitude ← value.part "amplitude" >>= Json.toInt
      return .sound { pitches, duration, amplitude }
  | .text "double" => value.toDouble.map fun x => .plain (.double x)
  | _ => .ok (.plain value)

def toJson : Literal → Json
  | .pitch name => name
  | .sound s => .object
      [("pitches", .list s.pitches), ("duration", .double s.duration),
       ("amplitude", .int s.amplitude)]
  | .plain j => j

def toValue : Literal → Value
  | .pitch name => .pitch name
  | .sound s => .sound s
  | .plain j => Value.ofJson j

end Literal

namespace Value

/-- The semitone of a value taken as the name of a pitch. -/
def semitoneOfName : Value → Except Failure Int
  | .foreign f => Pitch.semitoneOf f.toJson
  | .array items =>
      if items.size < 2 then .error (.fault (.invalidPitch (Value.array items).described))
      else .error (.defect (.notSubscriptable (Value.array items).kindName))
  | v => .error (.defect (.noLength v.kindName))

/-- The double that a value stands for. -/
def toDouble : Value → Except Failure Float
  | .int n => Integer.toDouble n
  | .double x => .ok x
  | .bool b => .ok (if b then 1 else 0)
  | .foreign f => f.toJson.toDouble
  | v => .error (.defect (.noDouble v.kindName))

/-- A value taken as a pitch: a pitch, or a name of one. The name has to be valid. -/
def asPitch : Value → Except Failure Value
  | .pitch name => (Pitch.semitoneOf name).map fun _ => .pitch name
  | v =>
      match v.semitoneOfName with
      | .error e => .error e
      | .ok _ =>
          match v with
          | .foreign f => .ok (.pitch f.toJson)
          | v => .ok v

/-- What a literal of a kind evaluates to. -/
def asLiteral (v : Value) (kind : Json) : Except Failure Value :=
  match kind with
  | .text "pitch" => v.asPitch
  | .text "double" => v.toDouble.map .double
  | .text "sound" =>
      match v with
      | .sound s => .ok (.sound s)
      | v => .error (.fault (.notSound v.described))
  | _ => .ok v

end Value

end Cadence
