/-
  How a double is written: its shortest digits, positional from 0.0001 up to sixteen integer
  digits, and with a power of ten otherwise.
-/
import Cadence.Double.Shortest

namespace Cadence.Double

/-- The choices of a number format. -/
structure Format where
  /-- Positional from this magnitude … -/
  least : Int
  /-- … to this one. -/
  most : Int
  /-- A power of ten is written with at least so many digits. -/
  exponentDigits : Nat

/-- Doubles are positional from magnitude -3 (0.0001) to 16 (sixteen integer digits). -/
def format : Format := { least := -3, most := 16, exponentDigits := 2 }

def padLeft (width : Nat) (cs : List Char) : List Char :=
  List.replicate (width - cs.length) '0' ++ cs

/-- The number `0.ds · 10 ^ k` without a power of ten, with at least one digit on each side of
    the point. -/
def positional (ds : List Char) (k : Int) : List Char :=
  if k ≤ 0 then '0' :: '.' :: (List.replicate (-k).toNat '0' ++ ds)
  else if ds.length ≤ k.toNat then ds ++ List.replicate (k.toNat - ds.length) '0' ++ ['.', '0']
  else ds.take k.toNat ++ '.' :: ds.drop k.toNat

/-- The number `0.ds · 10 ^ k` with one digit before the point and a signed power of ten. -/
def scientific (f : Format) (ds : List Char) (k : Int) : List Char :=
  let point := match ds with
    | d :: e :: rest => d :: '.' :: e :: rest
    | _ => ds
  let exponent := k - 1
  point ++ 'e' :: (if exponent < 0 then '-' else '+') ::
    padLeft f.exponentDigits (Nat.toDigits 10 exponent.natAbs)

def Format.write (f : Format) (ds : List Char) (k : Int) : List Char :=
  if f.least ≤ k ∧ k ≤ f.most then positional ds k else scientific f ds k

/-- The text of a double. -/
def text (x : Float) : String :=
  match view x with
  | .nan => "nan"
  | .infinite negative => if negative then "-inf" else "inf"
  | .finite negative mantissa exponent =>
      let (ds, k) := if mantissa = 0 then (['0'], 1) else shortest mantissa exponent
      let body := format.write ds k
      String.ofList (if negative then '-' :: body else body)

end Cadence.Double
