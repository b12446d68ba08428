/-
  The fewest decimal digits that read back as a given double.

  A positive double `m · 2 ^ q` is the nearest double to every real between the midpoints to its
  two neighbours (ends included when `m` is even). For one digit, two digits and so on, the two
  decimals next to the double on the grid of that many digits are tested against this interval,
  in whole numbers; the first grid with a hit wins, of two hits the nearer, and of two equally
  near ones the even.
-/
import Cadence.Double.Basic

namespace Cadence.Double

/-- The reals that round to a double, as numerators over one denominator. -/
structure Interval where
  low : Nat
  value : Nat
  high : Nat
  denominator : Nat
  /-- The two ends round to the double as well. -/
  closed : Bool

/-- The interval of `m · 2 ^ q`. Below a power of two the neighbour is twice as near. -/
def interval (m : Nat) (q : Int) : Interval :=
  let scale := Nat.pow 2 (q - 2).toNat
  let below := if m = hiddenBit ∧ -1074 < q then 1 else 2
  { low := (4 * m - below) * scale
    value := 4 * m * scale
    high := (4 * m + 2) * scale
    denominator := Nat.pow 2 (2 - q).toNat
    closed := m % 2 == 0 }

/-- Steps by which a numerator below the denominator has to be multiplied by ten to reach it. -/
def leadingZeros (fuel numerator denominator : Nat) : Nat :=
  match fuel with
  | 0 => 0
  | fuel + 1 =>
      if denominator ≤ numerator then 0
      else leadingZeros fuel (numerator * 10) denominator + 1

/-- The `k` with `10 ^ (k - 1) ≤ value < 10 ^ k`. -/
def Interval.magnitude (i : Interval) : Int :=
  if i.denominator ≤ i.value then (Nat.toDigits 10 (i.value / i.denominator)).length
  else 1 - (leadingZeros 400 i.value i.denominator : Int)

/-- The decimal with `n` digits below `10 ^ k` that lies in the interval, if any: its digits. -/
def Interval.digits? (i : Interval) (k : Int) (n : Nat) : Option Nat :=
  let stretch := Nat.pow 10 ((n : Int) - k).toNat
  let unit := i.denominator * Nat.pow 10 (k - n).toNat
  let value := i.value * stretch
  let c := value / unit
  let lowFits := i.low * stretch < c * unit || (i.closed && i.low * stretch == c * unit)
  let highFits :=
    (c + 1) * unit < i.high * stretch || (i.closed && (c + 1) * unit == i.high * stretch)
  match lowFits, highFits with
  | false, false => none
  | true, false => some c
  | false, true => some (c + 1)
  | true, true =>
      match compare (2 * value) ((2 * c + 1) * unit) with
      | .lt => some c
      | .gt => some (c + 1)
      | .eq => some (if c % 2 == 0 then c else c + 1)

/-- Digits `d` and magnitude `k`, the number being `0.d · 10 ^ k`. Seventeen digits suffice. -/
def shortest (m : Nat) (q : Int) : List Char × Int :=
  let i := interval m q
  let k := i.magnitude
  let candidate n := (i.digits? k n).map fun c => (c, n)
  let (c, n) := ((List.range 17).findSome? fun j => candidate (j + 1)).getD (0, 1)
  -- `c` may be the next power of ten, one digit longer than its grid
  if c = Nat.pow 10 n then (['1'], k + 1) else (Nat.toDigits 10 c, k)

end Cadence.Double
