/-
  Pitch names and semitones. A pitch is a step of the chromatic scale followed by one octave
  digit; it stands for `12 · octave + step`, counted from C0. Flats are accepted and mean the
  sharp below; a pitch computed from a semitone is spelled with sharps.
-/
import Cadence.Failure

namespace Cadence.Pitch

/-- The twelve steps of an octave. -/
def steps : List String := ["C", "C#", "D", "D#", "E", "F", "F#", "G", "G#", "A", "A#", "B"]

/-- The flats and their sharp spelling. -/
def flats : List (String × String) :=
  [("Db", "C#"), ("Eb", "D#"), ("Gb", "F#"), ("Ab", "G#"), ("Bb", "A#")]

/-- The highest semitone of a pitch. -/
def maxSemitone : Int := 119

/-- The step that a name without its octave spells. -/
def step? (s : String) : Option Nat := steps.idxOf? ((flats.lookup s).getD s)

/-- The octave that a digit stands for. A digit of any script counts, but one that has no decimal
    value is no octave. -/
def octave (c : Char) : Except Failure Nat :=
  match Text.decimalValue? c with
  | some n => .ok n
  | none => .error (.defect (.notInt c.toString))

/-- The semitone of a named pitch. -/
def semitone (name : String) : Except Failure Int :=
  let invalid := Except.error (.fault (.invalidPitch (Text.quoted name)))
  match name.toList.reverse with
  | last :: rest@(_ :: _) =>
      if Text.isDigit last then
        match step? (String.ofList rest.reverse) with
        | some step => (octave last).map fun n => 12 * (n : Int) + step
        | none => invalid
      else invalid
  | _ => invalid

/-- The name of the pitch at a semitone, with sharps. -/
def nameAt (octave step : Nat) : String := steps.getD step "" ++ toString octave

/-- What is wrong with a semitone that no pitch has. Numbers beyond `Text.maxIntDigits` digits
    cannot even be named. -/
def outOfRange (n : Int) : Failure :=
  if n.natAbs < Nat.pow 10 Text.maxIntDigits then .fault (.pitchOutOfRange n)
  else .defect .unwritableInt

/-- The pitch at a semitone from C0 to B9. -/
def ofSemitone (n : Int) : Except Failure String :=
  if n < 0 ∨ maxSemitone < n then .error (outOfRange n)
  else .ok (nameAt (n.toNat / 12) (n.toNat % 12))

/-- The last item of a list that stands where a pitch name belongs. It has to be a digit before
    the rest is even looked at, and the rest is then no step. -/
def listSemitone (items : List Json) : Defect ⊕ Fault :=
  let invalid := Sum.inr (.invalidPitch (Json.list items).described)
  match items.reverse with
  | last :: _ :: _ =>
      match last with
      | .text s => if s != "" && s.toList.all Text.isDigit then .inl (.notNameable "list") else invalid
      | other => .inl (.noPart other.kindName "isdigit")
  | _ => invalid

/-- The semitone of a pitch whose name may be any JSON value. Only texts name pitches. -/
def semitoneOf : Json → Except Failure Int
  | .text s => semitone s
  | .list items =>
      match listSemitone items with
      | .inl d => .error (.defect d)
      | .inr f => .error (.fault f)
  | .object fields =>
      if fields.length < 2 then .error (.fault (.invalidPitch (Json.object fields).described))
      else .error (.defect (.missingEntry (-1)))
  | other => .error (.defect (.noLength other.kindName))

end Cadence.Pitch
