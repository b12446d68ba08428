/-
  Operators. There is no numeric tower: a binary operator is defined for a pair of operand kinds
  or it is not, as `Binary.apply?` lists. Integer results are wrapped to 64 bits; an integer that
  meets a double is converted for arithmetic and compared without rounding; pitches are computed
  on semitones; an integer repeats an array and scales the length of a sound.
-/
import Cadence.Integer
import Cadence.Value.Basic

namespace Cadence

/-- The double nearest to an integer. -/
def Integer.toDouble (n : Int) : Except Failure Float :=
  match Double.ofInt? n with
  | some x => .ok x
  | none => .error (.defect .intTooLarge)

namespace Operator

inductive Arithmetic where
  | add
  | sub
  | mul
  deriving DecidableEq, Repr

inductive Comparison where
  | eq
  | ne
  | lt
  | gt
  | le
  | ge
  deriving DecidableEq, Repr

inductive Binary where
  | arithmetic (op : Arithmetic)
  | div
  | mod
  | and
  | or
  | comparison (op : Comparison)
  deriving DecidableEq, Repr

def Binary.ofText? : String → Option Binary
  | "+" => some (.arithmetic .add)
  | "-" => some (.arithmetic .sub)
  | "*" => some (.arithmetic .mul)
  | "/" => some .div
  | "%" => some .mod
  | "&&" => some .and
  | "||" => some .or
  | "==" => some (.comparison .eq)
  | "!=" => some (.comparison .ne)
  | "<" => some (.comparison .lt)
  | ">" => some (.comparison .gt)
  | "<=" => some (.comparison .le)
  | ">=" => some (.comparison .ge)
  | _ => none

inductive Unary where
  | not
  | negate
  deriving DecidableEq, Repr

def Unary.ofText? : String → Option Unary
  | "!" => some .not
  | "-" => some .negate
  | _ => none

/-! ## Numbers -/

def Arithmetic.onInts : Arithmetic → Int → Int → Int
  | .add, a, b => a + b
  | .sub, a, b => a - b
  | .mul, a, b => a * b

def Arithmetic.onDoubles : Arithmetic → Float → Float → Float
  | .add, a, b => a + b
  | .sub, a, b => a - b
  | .mul, a, b => a * b

def divDoubles (a b : Float) : Except Failure Float :=
  if b == 0 then .error (.fault .divisionByZero) else .ok (a / b)

/-- What a comparison says of two things in a given order; `none` is the order of NaN with
    anything. -/
def Comparison.holds : Comparison → Option Ordering → Bool
  | .eq, o => o == some .eq
  | .ne, o => o != some .eq
  | .lt, o => o == some .lt
  | .gt, o => o == some .gt
  | .le, o => o == some .lt || o == some .eq
  | .ge, o => o == some .gt || o == some .eq

def compareDoubles (a b : Float) : Option Ordering :=
  if a == b then some .eq
  else if a < b then some .lt
  else if b < a then some .gt
  else none

def Comparison.onInts (op : Comparison) (a b : Int) : Bool := op.holds (some (compare a b))

def Comparison.onDoubles (op : Comparison) (a b : Float) : Bool := op.holds (compareDoubles a b)

/-- The comparison with its sides exchanged. -/
def Comparison.flip : Comparison → Comparison
  | .eq => .eq
  | .ne => .ne
  | .lt => .gt
  | .gt => .lt
  | .le => .ge
  | .ge => .le

/-! ## Pitches, sounds and arrays -/

/-- The pitch at the semitone that a computation gives. -/
def pitchAt (r : Except Failure Int) : Except Failure Value := do
  let n ← r
  let name ← Pitch.ofSemitone n
  return .pitch (.text name)

def scale (s : Sound) (factor : Float) : Value :=
  .sound { s with duration := s.duration * factor }

/-- `times` copies of the items, one after another. -/
def copies (items : Array Value) (times : Nat) : Array Value :=
  Array.ofFn fun j : Fin (items.size * times) =>
    have : j.1 % items.size < items.size :=
      Nat.mod_lt _ (Nat.pos_of_mul_pos_right (Nat.zero_lt_of_lt j.2))
    items[j.1 % items.size]

/-- An array repeated. The length of the result is bounded, and so is the count where the length
    does not grow with it. -/
def repeated (items : Array Value) (times : Int) : Except Failure Value :=
  if times < 1 then .error (.fault (.repeatCount times))
  else if (maxArrayLength : Int) < items.size * times then
    .error (.fault (.repeatTooLong items.size times))
  else if Integer.maxInt < times then .error (.defect .countTooLarge)
  else .ok (.array (copies items times.toNat))

/-! ## The table -/

/-- Two integers. -/
def Binary.ints : Binary → Int → Int → Option (Except Failure Value)
  | .arithmetic op, a, b => some (.ok (.int (Integer.wrap (op.onInts a b))))
  | .div, a, b => some ((Integer.div a b).map .int)
  | .mod, a, b => some ((Integer.mod a b).map .int)
  | .comparison op, a, b => some (.ok (.bool (op.onInts a b)))
  | _, _, _ => none

/-- Arithmetic on two doubles, either of which may have to be converted first. -/
def Binary.doubles : Binary → Except Failure Float → Except Failure Float →
    Option (Except Failure Value)
  | .arithmetic op, a, b => some do
      let x ← a
      let y ← b
      return .double (op.onDoubles x y)
  | .div, a, b => some do
      let x ← a
      let y ← b
      return .double (← divDoubles x y)
  | _, _, _ => none

/-- A semitone and an integer, the semitone on the left. -/
def Binary.pitchInt : Binary → Except Failure Int → Int → Option (Except Failure Value)
  | .arithmetic op, p, n => some (pitchAt (p.map fun s => op.onInts s n))
  | .div, p, n => some (pitchAt (p >>= fun s => Integer.div s n))
  | .mod, p, n => some (pitchAt (p >>= fun s => Integer.mod s n))
  | .comparison op, p, n => some (p.map fun s => .bool (op.onInts s n))
  | _, _, _ => none

/-- A semitone and an integer, the semitone on the right. There is no product. -/
def Binary.intPitch : Binary → Int → Except Failure Int → Option (Except Failure Value)
  | .arithmetic .mul, _, _ => none
  | .arithmetic op, n, p => some (pitchAt (p.map fun s => op.onInts n s))
  | .div, n, p => some (pitchAt (p >>= fun s => Integer.div n s))
  | .mod, n, p => some (pitchAt (p >>= fun s => Integer.mod n s))
  | .comparison op, n, p => some (p.map fun s => .bool (op.onInts n s))
  | _, _, _ => none

/-- Two pitches are only compared. -/
def Binary.pitches : Binary → Except Failure Int → Except Failure Int →
    Option (Except Failure Value)
  | .comparison op, p, q => some do
      let s ← p
      let t ← q
      return .bool (op.onInts s t)
  | _, _, _ => none

/-- Two booleans; false is less than true. -/
def Binary.bools : Binary → Bool → Bool → Option (Except Failure Value)
  | .and, a, b => some (.ok (.bool (a && b)))
  | .or, a, b => some (.ok (.bool (a || b)))
  | .comparison op, a, b => some (.ok (.bool (op.onInts (Json.bit a) (Json.bit b))))
  | _, _, _ => none

/-- A sound and a factor. -/
def Binary.scaling : Binary → Sound → Except Failure Float → Option (Except Failure Value)
  | .arithmetic .mul, s, factor => some (factor.map (scale s))
  | _, _, _ => none

/-- An array and a count. -/
def Binary.repetition : Binary → Array Value → Int → Option (Except Failure Value)
  | .arithmetic .mul, items, times => some (repeated items times)
  | _, _, _ => none

/-- The operator on two values, if it is defined for their kinds. -/
def Binary.apply? (op : Binary) : Value → Value → Option (Except Failure Value)
  | .int a, .int b => op.ints a b
  | .int a, .double b =>
      match op with
      | .comparison c => some (.ok (.bool (c.flip.holds (Double.compareInt? b a))))
      | _ => op.doubles (Integer.toDouble a) (.ok b)
  | .double a, .int b =>
      match op with
      | .comparison c => some (.ok (.bool (c.holds (Double.compareInt? a b))))
      | _ => op.doubles (.ok a) (Integer.toDouble b)
  | .double a, .double b =>
      match op with
      | .comparison c => some (.ok (.bool (c.onDoubles a b)))
      | _ => op.doubles (.ok a) (.ok b)
  | .bool a, .bool b => op.bools a b
  | .pitch p, .int n => op.pitchInt (Pitch.semitoneOf p) n
  | .int n, .pitch p => op.intPitch n (Pitch.semitoneOf p)
  | .pitch p, .pitch q => op.pitches (Pitch.semitoneOf p) (Pitch.semitoneOf q)
  | .array items, .int n => op.repetition items n
  | .int n, .array items => op.repetition items n
  | .sound s, .int n => op.scaling s (Integer.toDouble n)
  | .int n, .sound s => op.scaling s (Integer.toDouble n)
  | .sound s, .double x => op.scaling s (.ok x)
  | .double x, .sound s => op.scaling s (.ok x)
  | _, _ => none

def Unary.apply? : Unary → Value → Option (Except Failure Value)
  | .not, .bool b => some (.ok (.bool !b))
  | .negate, .int n => some (.ok (.int (Integer.wrap (-n))))
  | .negate, .double x => some (.ok (.double (-x)))
  | _, _ => none

/-- The operator that a name stands for. Only texts name operators. -/
def named {α : Type} (ofText? : String → Option α) : Name → Option α
  | .text s => ofText? s
  | _ => none

/-- A JSON value as a name. -/
def nameOf (j : Json) : Except Failure Name :=
  match Name.ofJson? j with
  | some n => .ok n
  | none => .error (.defect (.notNameable j.kindName))

/-- Applies a binary operator given by name. Both operands need a kind before the name counts. -/
def binary (op : Json) (a b : Value) : Except Failure Value := do
  let left ← a.tag
  let right ← b.tag
  let name ← nameOf op
  match (named Binary.ofText? name).bind fun o => o.apply? a b with
  | some r => r
  | none => .error (.fault (.noBinary name left right))

/-- Applies a unary operator given by name. -/
def unary (op : Json) (a : Value) : Except Failure Value := do
  let tag ← a.tag
  let name ← nameOf op
  match (named Unary.ofText? name).bind fun o => o.apply? a with
  | some r => r
  | none => .error (.fault (.noUnary name tag))

end Operator

end Cadence
