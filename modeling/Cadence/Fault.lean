/-
  Faults: what a program can do wrong at run time, in the language's own error channel.

  Each constructor is one cause. `Fault.kind` sorts the causes into the sixteen kinds a user sees,
  and `Fault.message` is the only place where they are worded.
-/
import Cadence.Name
import Cadence.Tag

namespace Cadence

namespace Fault

/-- The kinds of faults. -/
inductive Kind where
  | undeclaredIdentifier
  | undefinedFunction
  | arityMismatch
  | typeMismatch
  | invalidOperation
  | notAnArray
  | invalidIndex
  | indexOutOfBounds
  | emptyArrayLiteral
  | heterogeneousArrayLiteral
  | wrongArgumentType
  | invalidMixdownArgs
  | notMixable
  | mainNotFound
  | unmatchedType
  | stackOverflow
  deriving DecidableEq, Repr

def Kind.text : Kind → String
  | .undeclaredIdentifier => "UndeclaredIdentifier"
  | .undefinedFunction => "UndefinedFunction"
  | .arityMismatch => "ArityMismatch"
  | .typeMismatch => "TypeMismatch"
  | .invalidOperation => "InvalidOperation"
  | .notAnArray => "NotAnArray"
  | .invalidIndex => "InvalidIndex"
  | .indexOutOfBounds => "IndexOutOfBounds"
  | .emptyArrayLiteral => "EmptyArrayLiteral"
  | .heterogeneousArrayLiteral => "HeterogeneousArrayLiteral"
  | .wrongArgumentType => "WrongArgumentType"
  | .invalidMixdownArgs => "InvalidMixdownArgs"
  | .notMixable => "NotMixable"
  | .mainNotFound => "MainNotFound"
  | .unmatchedType => "UnmatchedType"
  | .stackOverflow => "StackOverflow"

def Kind.all : List Kind :=
  [.undeclaredIdentifier, .undefinedFunction, .arityMismatch, .typeMismatch, .invalidOperation,
   .notAnArray, .invalidIndex, .indexOutOfBounds, .emptyArrayLiteral, .heterogeneousArrayLiteral,
   .wrongArgumentType, .invalidMixdownArgs, .notMixable, .mainNotFound, .unmatchedType,
   .stackOverflow]

def Kind.ofText? (s : String) : Option Kind := Kind.all.find? fun k => k.text == s

/-- What a name that holds no array was wanted for. -/
inductive ArrayUse where
  | loop
  | read
  | assign
  deriving DecidableEq, Repr

def ArrayUse.text : ArrayUse → String
  | .loop => "loop over it"
  | .read => "access index"
  | .assign => "assign to index"

end Fault

/-- The longest array that repetition or growth may build. -/
def maxArrayLength : Nat := 1000000

/-- The highest track number. -/
def maxTrack : Int := 15

/-- The causes of a fault. -/
inductive Fault where
  -- names and calls
  | undeclared (name : Name)
  | undefinedFunction (name : Name)
  | builtinArity (name : String) (expected got : Nat)
  | wrongArity (function : String)
  | noMain
  | callDepth (limit : Int) (function : String)
  | nesting
  -- types
  | unassignable (name : Name) (held given : Tag)
  | unknownType (text : String)
  | notSound (described : String)
  | unclassified (kindName : String)
  | noDefault (text : String)
  -- operators and pitches
  | invalidPitch (described : String)
  | pitchOutOfRange (semitone : Int)
  | divisionByZero
  | moduloByZero
  | repeatCount (times : Int)
  | repeatTooLong (length : Nat) (times : Int)
  | noBinary (op : Name) (left right : Tag)
  | noUnary (op : Name) (operand : Tag)
  -- arrays and references
  | loopOverItself (name : String)
  | circular (name : Name)
  | notAssignable
  | notAnArray (name : Name) (use : Fault.ArrayUse)
  | noIndex (array : String)
  | manyIndices (array : String)
  | indexNotInt (got : Tag)
  | outOfBounds (index : Int) (array : Name) (length : Nat)
  | negativeIndex (index : Int) (array : Name)
  | indexTooLarge (index : Int)
  | emptyArray
  | mixedArray (position : Nat) (got expected : Tag)
  -- built-in functions and the track
  | wrongArgument (function : String) (expected : List Tag) (got : Tag)
  | notPitchArray (got : Tag)
  | noPitches
  | randomIntBound (bound : Int)
  | randomDoubleBound (bound : Float)
  | tempoNotPositive (tempo : Int)
  | tempoFixed
  | mixdownCount (got : Nat)
  | trackNotInt (got : Tag)
  | trackOutside (track : Int)
  | notMixable (got : Tag)
  deriving DecidableEq, Repr

namespace Fault

def kind : Fault → Kind
  | .undeclared _ => .undeclaredIdentifier
  | .undefinedFunction _ => .undefinedFunction
  | .builtinArity .. | .wrongArity _ => .arityMismatch
  | .noMain => .mainNotFound
  | .callDepth .. | .nesting => .stackOverflow
  | .unassignable .. | .unknownType _ | .notSound _ => .typeMismatch
  | .unclassified _ | .noDefault _ => .unmatchedType
  | .invalidPitch _ | .pitchOutOfRange _ | .divisionByZero | .moduloByZero | .repeatCount _
  | .repeatTooLong .. | .noBinary .. | .noUnary .. | .loopOverItself _ | .circular _
  | .notAssignable | .tempoFixed => .invalidOperation
  | .notAnArray .. => .notAnArray
  | .noIndex _ | .manyIndices _ | .indexNotInt _ => .invalidIndex
  | .outOfBounds .. | .negativeIndex .. | .indexTooLarge _ => .indexOutOfBounds
  | .emptyArray | .noPitches => .emptyArrayLiteral
  | .mixedArray .. => .heterogeneousArrayLiteral
  | .wrongArgument .. | .notPitchArray _ | .randomIntBound _ | .randomDoubleBound _
  | .tempoNotPositive _ => .wrongArgumentType
  | .mixdownCount _ | .trackNotInt _ | .trackOutside _ => .invalidMixdownArgs
  | .notMixable _ => .notMixable

def message : Fault → String
  | .undeclared name => s!"undeclared identifier {name.shown}"
  | .undefinedFunction name => s!"undefined function {name.shown}"
  | .builtinArity name expected got => s!"{name} expects {expected} arguments, got {got}"
  | .wrongArity function => s!"wrong number of arguments to: {function}"
  | .noMain => "did not find the main() function"
  | .callDepth limit function => s!"call depth exceeded {limit} calling {function}"
  | .nesting => "expression or call nesting is too deep"
  | .unassignable name held given =>
      s!"cannot assign {given.text} to {name.shown}, which holds {held.text}"
  | .unknownType text => s!"unknown type {Text.quoted text}"
  | .notSound described => s!"invalid sound literal {described}"
  | .unclassified kindName => s!"unmatched type {kindName}"
  | .noDefault text => s!"no default value for {text}"
  | .invalidPitch described => s!"invalid pitch {described}"
  | .pitchOutOfRange semitone => s!"pitch offset {semitone} is out of range"
  | .divisionByZero => "division by zero"
  | .moduloByZero => "modulo by zero"
  | .repeatCount times => s!"cannot repeat an array {times} times"
  | .repeatTooLong length times =>
      s!"repeating an array of {length} elements {times} times exceeds {maxArrayLength} elements"
  | .noBinary op left right =>
      s!"operator {op.shown} is not defined for {left.text} and {right.text}"
  | .noUnary op operand => s!"unary operator {op.shown} is not defined for {operand.text}"
  | .loopOverItself name => s!"loop variable {name} cannot iterate over itself"
  | .circular name => s!"circular element reference through {name.shown}"
  | .notAssignable => "can only assign variables or array indices"
  | .notAnArray name use => s!"{name.shown} is not an array. Cannot {use.text}"
  | .noIndex array => s!"error indexing array {array} without indices"
  | .manyIndices array => s!"multi-dimensional indexing of {array} is not supported"
  | .indexNotInt got => s!"array index must be int, got {got.text}"
  | .outOfBounds index array length =>
      s!"index {index} is out of bounds for {array.shown} of length {length}"
  | .negativeIndex index array => s!"index {index} is out of bounds for {array.shown}"
  | .indexTooLarge index =>
      s!"index {index} exceeds the largest array of {maxArrayLength} elements"
  | .emptyArray => "array literals cannot be empty"
  | .mixedArray position got expected =>
      s!"array element {position} is {got.text}, expected {expected.text}"
  | .wrongArgument function expected got =>
      let words := String.intercalate " or " (expected.map Tag.text)
      s!"{function} expects {words}, got {got.text}"
  | .notPitchArray got => s!"setPitches expects an array of pitch, got array of {got.text}"
  | .noPitches => "sound has no pitches"
  | .randomIntBound bound => s!"randomInt bound must be positive, got {bound}"
  | .randomDoubleBound bound => s!"randomDouble bound must be positive, got {Double.text bound}"
  | .tempoNotPositive tempo => s!"bpm expects a positive tempo, got {tempo}"
  | .tempoFixed => "bpm cannot be changed after the first mixdown"
  | .mixdownCount got => s!"mixdown expects 1 or 2 arguments, got {got}"
  | .trackNotInt got => s!"mixdown track number must be int, got {got.text}"
  | .trackOutside track => s!"mixdown track number {track} is outside 0..{maxTrack}"
  | .notMixable got => s!"cannot mix down a value of type {got.text}"

/-- A fault of the given kind as the debug log and the command line report it. -/
def reportOf (kind message : String) : String := s!"TonicError: {kind}: {message}"

def report (f : Fault) : String := reportOf f.kind.text f.message

/-- A fault record with its two fields in quotes. -/
def describe (kind message : String) : String :=
  s!"Error(name={Text.quoted kind}, message={Text.quoted message})"

end Fault

end Cadence
