/-
  Quoted text, as messages show it: single quotes, or double quotes around a text that holds a
  single quote and no double one; backslash escapes for the quote, the backslash, line breaks and
  tabs, and numeric escapes for whatever is not printable.
-/
import Cadence.Text.Printable

namespace Cadence.Text

/-- `n` in hexadecimal, lower case, with at least `width` digits. -/
def hex (width n : Nat) : List Char :=
  let ds := Nat.toDigits 16 n
  List.replicate (width - ds.length) '0' ++ ds

/-- One character between quotes of the kind `quote`. -/
def escape (quote c : Char) : List Char :=
  if c == quote || c == '\\' then ['\\', c]
  else if c == '\n' then ['\\', 'n']
  else if c == '\r' then ['\\', 'r']
  else if c == '\t' then ['\\', 't']
  else if isPrintable c then [c]
  else if c.toNat < 0x100 then '\\' :: 'x' :: hex 2 c.toNat
  else if c.toNat < 0x10000 then '\\' :: 'u' :: hex 4 c.toNat
  else '\\' :: 'U' :: hex 8 c.toNat

/-- The quote that surrounds a text. -/
def quoteFor (cs : List Char) : Char :=
  if cs.contains '\'' && !cs.contains '"' then '"' else '\''

/-- The text in quotes. -/
def quoted (s : String) : String :=
  let cs := s.toList
  let q := quoteFor cs
  String.ofList (q :: cs.flatMap (escape q) ++ [q])

end Cadence.Text
