/-
  The built-in functions. They are found before any function of the program, and each checks the
  kinds of its arguments itself.
-/
import Cadence.Studio

namespace Cadence

namespace Builtin

/-! ## Arguments -/

def argument (args : List Value) (i : Nat) : Except Failure Value :=
  match args[i]? with
  | some v => .ok v
  | none => .error (.defect .noArgument)

def wrong {α : Type} (b : Builtin) (expected : List Tag) (v : Value) : Except Failure α := do
  let got ← v.tag
  throw (.fault (.wrongArgument b.name expected got))

/-- The argument at a place, taken for what `pick` takes it for. It has to be of that kind. -/
def typedArg {α : Type} (pick : Value → Option α) (expected : Tag) (b : Builtin)
    (args : List Value) (i : Nat) : Except Failure α := do
  let v ← argument args i
  match pick v with
  | some a => return a
  | none => b.wrong [expected] v

def soundArg (b : Builtin) (args : List Value) (i : Nat) : Except Failure Sound :=
  typedArg Value.sound? .sound b args i

def intArg (b : Builtin) (args : List Value) (i : Nat) : Except Failure Int :=
  typedArg Value.int? .int b args i

def doubleArg (b : Builtin) (args : List Value) (i : Nat) : Except Failure Float :=
  typedArg Value.double? .double b args i

def arrayArg (b : Builtin) (args : List Value) (i : Nat) : Except Failure (Array Value) :=
  typedArg Value.array? .array b args i

/-! ## Functions without effects -/

/-- The pitches of a sound or a pitch, as an array. -/
def pitchesOf (args : List Value) : Except Failure Value := do
  match ← argument args 0 with
  | .pitch name => return .array #[.pitch name]
  | .sound s =>
      if s.pitches.isEmpty then throw (.fault .noPitches)
      else return .array (s.pitches.map .pitch).toArray
  | v => getPitches.wrong [.sound, .pitch] v

/-- The names of an array of pitches. Only the kind of the first item is checked by a fault. -/
def pitchNames : List Value → Except Failure (List Json)
  | [] => .ok []
  | .pitch name :: rest => (pitchNames rest).map (name :: ·)
  | v :: _ => .error (.defect (.noPart v.kindName "name"))

def withPitches (args : List Value) : Except Failure Value := do
  let s ← setPitches.soundArg args 0
  let items ← setPitches.arrayArg args 1
  let tag ← Value.elementTag items
  if tag ≠ .pitch then throw (.fault (.notPitchArray tag))
  let pitches ← pitchNames items.toList
  return .sound { s with pitches }

def withAmplitude (args : List Value) : Except Failure Value := do
  let s ← setAmplitude.soundArg args 0
  let amplitude ← setAmplitude.intArg args 1
  return .sound { s with amplitude }

def withDuration (args : List Value) : Except Failure Value := do
  let s ← setDuration.soundArg args 0
  let duration ← setDuration.doubleArg args 1
  return .sound { s with duration }

def intBound (args : List Value) : Except Failure Nat := do
  let bound ← randomInt.intArg args 0
  if bound ≤ 0 then throw (.fault (.randomIntBound bound)) else return bound.toNat

/-- NaN is no bound that is at most zero. -/
def doubleBound (args : List Value) : Except Failure Float := do
  let bound ← randomDouble.doubleArg args 0
  if bound ≤ 0 then throw (.fault (.randomDoubleBound bound)) else return bound

def tempo (args : List Value) : Except Failure Int := do
  let n ← bpm.intArg args 0
  if n ≤ 0 then throw (.fault (.tempoNotPositive n)) else return n

/-! ## Calls -/

/-- Calls a built-in function. `room` bounds the nesting of values that are written out. -/
def call (room : Value.Room) (b : Builtin) (args : List Value) : Act Value :=
  match b with
  | .print => do
      let v ← Act.lift (argument args 0)
      let text ← Act.lift (v.text room)
      Act.print (.printed text)
      return .int 0
  | .getAmplitude => do
      let s ← Act.lift (b.soundArg args 0)
      return .int s.amplitude
  | .getDuration => do
      let s ← Act.lift (b.soundArg args 0)
      return .double s.duration
  | .getPitches => Act.lift (pitchesOf args)
  | .setAmplitude => Act.lift (withAmplitude args)
  | .setDuration => Act.lift (withDuration args)
  | .setPitches => Act.lift (withPitches args)
  | .randomInt => do
      let bound ← Act.lift (intBound args)
      let n ← Act.randomBelow bound
      return .int n
  | .randomDouble => do
      let bound ← Act.lift (doubleBound args)
      let x ← Act.randomDouble
      return .double (x * bound)
  | .length => do
      let items ← Act.lift (b.arrayArg args 0)
      return .int items.size
  | .bpm => do
      let n ← Act.lift (tempo args)
      Act.setTempo n
      return .int 0
  | .mixdown => do
      let _ ← Act.mixdown room args
      return .int 0

/-- Calls a built-in function in a run. -/
def perform (room : Value.Room) (b : Builtin) (args : List Value) : Act Value := do
  Act.note (.performed b args)
  b.call room args

end Builtin

end Cadence
