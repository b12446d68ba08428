/-
  Doubles taken apart: sign, mantissa and power of two, and what follows exactly from them
  (comparison with an integer, the integer part, the double nearest to an integer or a decimal).

  Nothing here rounds except `ofInt?` and `ofDecimal`, which round to the nearest double.
-/
namespace Cadence.Double

/-- A double by its parts. A finite one is `± mantissa · 2 ^ exponent`. -/
inductive View where
  | nan
  | infinite (negative : Bool)
  | finite (negative : Bool) (mantissa : Nat) (exponent : Int)
  deriving DecidableEq, Repr

/-- The bit above the stored fraction of a mantissa. -/
def hiddenBit : Nat := 0x10000000000000

def View.ofBits (bits : Nat) : View :=
  let negative := (bits >>> 63) % 2 == 1
  let biased : Nat := (bits >>> 52) % 2048
  let fraction := bits % hiddenBit
  if biased = 2047 then
    if fraction = 0 then .infinite negative else .nan
  else if biased = 0 then .finite negative fraction (-1074)
  else .finite negative (hiddenBit + fraction) ((biased : Int) - 1075)

def view (x : Float) : View := View.ofBits x.toBits.toNat

def negate (negative : Bool) (n : Int) : Int := if negative then -n else n

/-- The order of a double and an integer, without rounding; `none` for NaN. -/
def compareInt? (x : Float) (n : Int) : Option Ordering :=
  match view x with
  | .nan => none
  | .infinite negative => some (if negative then .lt else .gt)
  | .finite negative mantissa exponent =>
      let m := negate negative mantissa
      if 0 ≤ exponent then some (compare (m * Nat.pow 2 exponent.toNat) n)
      else some (compare m (n * Nat.pow 2 (-exponent).toNat))

/-- The integer part of a finite double, cut off toward zero. -/
def truncate? (x : Float) : Option Int :=
  match view x with
  | .finite negative mantissa exponent =>
      if 0 ≤ exponent then some (negate negative (mantissa * Nat.pow 2 exponent.toNat : Nat))
      else some (negate negative (mantissa / Nat.pow 2 (-exponent).toNat : Nat))
  | _ => none

/-- The integer that a double is, if it is one. -/
def integer? (x : Float) : Option Int :=
  (truncate? x).filter fun n => compareInt? x n == some .eq

/-- The double nearest to `± digits · 10 ^ exponent`. Beyond the range of doubles it is an
    infinity or a zero, which the first two tests decide before any large power is formed. -/
def ofDecimal (negative : Bool) (digits : Nat) (exponent : Int) : Float :=
  let size : Int := (Nat.toDigits 10 digits).length
  let magnitude : Float :=
    if digits = 0 then 0
    else if 400 < size + exponent then 1 / 0
    else if size + exponent < -400 then 0
    else Float.ofScientific digits (exponent < 0) exponent.natAbs
  if negative then -magnitude else magnitude

/-- The least whole number that rounds to an infinity: half a step above the largest double. -/
@[irreducible] def overflow : Nat := Nat.pow 2 1024 - Nat.pow 2 970

/-- The double nearest to an integer; `none` when that is an infinity. -/
def ofInt? (n : Int) : Option Float :=
  if n.natAbs < overflow then
    let x := Float.ofScientific n.natAbs false 0
    some (if n < 0 then -x else x)
  else none

end Cadence.Double
