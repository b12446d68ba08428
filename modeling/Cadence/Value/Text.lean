/-
  The three texts of a value: as it is printed, as it goes into a track file, and as it is
  described in messages. A value is written from left to right, and writing ends with the first
  failure; that may be an array inside more arrays than there is room for.
-/
import Cadence.Value.Basic

namespace Cadence

/-- Texts put together with a separator. Anything but a text cannot be joined. -/
def joinTexts (separator : String) (items : List Json) : Except Failure String :=
  let rec texts (position : Nat) : List Json → Except Failure (List String)
    | [] => .ok []
    | .text s :: rest => (texts (position + 1) rest).map (s :: ·)
    | other :: _ => .error (.defect (.notJoinable position other.kindName))
  (texts 0 items).map (String.intercalate separator)

namespace Sound

/-- Duration and amplitude, as they follow the pitches. -/
def tail (s : Sound) : String := s!":{Double.text s.duration}:{s.amplitude}"

/-- A sound as it is printed. -/
def shown (s : Sound) : Except Failure String :=
  (joinTexts ", " s.pitches).map fun names => "|" ++ names ++ "|" ++ s.tail

/-- A sound as it goes into a track file. -/
def serialized (s : Sound) : Except Failure String :=
  (joinTexts ", " s.pitches).map fun names => "[" ++ names ++ "]" ++ s.tail

def described (s : Sound) : String :=
  s!"Sound({(Json.list s.pitches).described}, {Double.text s.duration}, {s.amplitude})"

end Sound

namespace Value

mutual
/-- A value as it is printed. The result is a text unless the value is a pitch whose name is
    none, which is handed on as it is. -/
def shown (room : Room) : Value → Except Failure Json
  | .int n => .ok (.text (toString n))
  | .double x => .ok (.text (Double.text x))
  | .bool b => .ok (.text (if b then "true" else "false"))
  | .pitch name => .ok name
  | .sound s => s.shown.map .text
  | .array ⟨items⟩ => do
      let inside ← room.enter
      let texts ← shownItems inside items
      let body ← joinTexts "," texts
      return .text ("[" ++ body ++ "]")
  | .ref name index => .error (.fault (.unclassified (Value.ref name index).kindName))
  | .foreign f => .error (.fault (.unclassified (Value.foreign f).kindName))

def shownItems (room : Room) : List Value → Except Failure (List Json)
  | [] => .ok []
  | v :: vs => do
      let t ← shown room v
      let ts ← shownItems room vs
      return t :: ts
end

/-- The printed text of a value. -/
def text (room : Room) (v : Value) : Except Failure String := (v.shown room).map Json.shown

/-- The printed texts of a list of arguments. -/
def texts (room : Room) (vs : List Value) : Except Failure String :=
  shownItems room vs >>= joinTexts ", "

mutual
/-- A sound, or an array nested down to sounds, as it goes into a track file. -/
def serialized (room : Room) : Value → Except Failure String
  | .sound s => s.serialized
  | .array ⟨items⟩ => do
      let inside ← room.enter
      let texts ← serializedItems inside items
      return "[" ++ String.intercalate "," texts ++ "]"
  | v => v.tag >>= fun t => .error (.fault (.notMixable t))

def serializedItems (room : Room) : List Value → Except Failure (List String)
  | [] => .ok []
  | v :: vs => do
      let t ← serialized room v
      let ts ← serializedItems room vs
      return t :: ts
end

mutual
/-- A value as messages describe it. -/
def described : Value → String
  | .int n => toString n
  | .double x => Double.text x
  | .bool b => if b then "True" else "False"
  | .pitch name => s!"Pitch({name.shown})"
  | .sound s => s.described
  | .array ⟨items⟩ => "Array([" ++ String.intercalate ", " (describedItems items) ++ "])"
  | .ref name index => s!"ElementRef(array={name.described}, index={index})"
  | .foreign f => f.toJson.described

def describedItems : List Value → List String
  | [] => []
  | v :: vs => described v :: describedItems vs
end

end Value

end Cadence
