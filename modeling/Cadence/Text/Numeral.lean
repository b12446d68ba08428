/-
  Numbers written as text: whole numbers and doubles, with optional white space around them, a
  sign, single underscores between digits, and decimal digits of any script.
-/
import Cadence.Double.Basic
import Cadence.Text.Blank
import Cadence.Text.Digit

namespace Cadence.Text

/-- Decimal digits of any script become ASCII digits and wide white space a space. Any other
    character beyond ASCII becomes a question mark, which no number contains. -/
def plain (c : Char) : Char :=
  if c.toNat < 0x7f then c
  else if isWideBlank c then ' '
  else match decimalValue? c with
    | some d => Nat.digitChar d
    | none => '?'

/-- The characters of a written number in ASCII, without the white space around it. -/
def numberChars (s : String) : List Char := trimBy isNumberBlank (s.toList.map plain)

/-- Removes the underscores, each of which has to stand between two digits. -/
def joinDigits? (cs : List Char) : Option (List Char) :=
  go none cs
where
  go (previous : Option Char) : List Char → Option (List Char)
    | [] => if previous == some '_' then none else some []
    | c :: rest =>
        if c == '_' then
          if previous.any isAsciiDigit then go (some c) rest else none
        else if previous == some '_' && !isAsciiDigit c then none
        else (go (some c) rest).map (c :: ·)

/-- Splits off a sign; true means minus. -/
def takeSign : List Char → Bool × List Char
  | '-' :: rest => (true, rest)
  | '+' :: rest => (false, rest)
  | cs => (false, cs)

def natOfDigits (cs : List Char) : Nat :=
  cs.foldl (fun n c => 10 * n + (c.toNat - 0x30)) 0

/-- Why a text is no whole number. -/
inductive IntError where
  | malformed
  | tooLong (digits : Nat)
  deriving DecidableEq, Repr

/-- The longest whole number that is read or written. -/
def maxIntDigits : Nat := 4300

/-- A signed whole number from its digits, unless they are too many. -/
def intOfDigits (negative : Bool) (cs : List Char) : Except IntError Int :=
  if maxIntDigits < cs.length then .error (.tooLong cs.length)
  else .ok (Double.negate negative (natOfDigits cs))

/-- A whole number. Its digits are counted before what follows them is looked at. -/
def readInt (s : String) : Except IntError Int :=
  let (negative, cs) := takeSign (numberChars s)
  let isPart (c : Char) := isAsciiDigit c || c == '_'
  match joinDigits? (cs.takeWhile isPart) with
  | some ds =>
      if ds.isEmpty then .error .malformed
      else do
        let n ← intOfDigits negative ds
        if cs.all isPart then return n else throw .malformed
  | none => .error .malformed

/-- The parts of a decimal number: digits before the point, digits after it, power of ten. -/
structure DecimalParts where
  whole : List Char
  fraction : List Char
  exponent : Int

def DecimalParts.toDouble (p : DecimalParts) (negative : Bool) : Float :=
  Double.ofDecimal negative (natOfDigits (p.whole ++ p.fraction))
    (p.exponent - p.fraction.length)

/-- The power of ten behind the digits of a decimal number, to the end of the text. -/
def takeExponent? : List Char → Option Int
  | [] => some 0
  | c :: rest =>
      let (negative, ds) := takeSign rest
      if (c == 'e' || c == 'E') && !ds.isEmpty && ds.all isAsciiDigit then
        some (Double.negate negative (natOfDigits ds))
      else none

/-- An unsigned decimal number with a digit on at least one side of the point. -/
def decimalParts? (cs : List Char) : Option DecimalParts :=
  let whole := cs.takeWhile isAsciiDigit
  let rest := cs.dropWhile isAsciiDigit
  let (fraction, rest) := match rest with
    | '.' :: more => (more.takeWhile isAsciiDigit, more.dropWhile isAsciiDigit)
    | _ => ([], rest)
  if whole.isEmpty && fraction.isEmpty then none
  else (takeExponent? rest).map fun exponent => { whole, fraction, exponent }

/-- A double: a decimal number, an infinity or NaN, the last two in any letter case. -/
def readDouble? (s : String) : Option Float := do
  let cs ← joinDigits? (numberChars s)
  let (negative, cs) := takeSign cs
  let word := String.ofList (cs.map Char.toLower)
  if word == "inf" || word == "infinity" then
    return if negative then -(1 / 0) else 1 / 0
  else if word == "nan" then return 0 / 0
  else return (← decimalParts? cs).toDouble negative

end Cadence.Text
