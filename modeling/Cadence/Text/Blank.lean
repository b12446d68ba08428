/-
  White space: the characters trimmed from the ends of a type name, and the narrower class
  that may surround a written number.
-/
namespace Cadence.Text

/-- Closed ranges of code points beyond ASCII that are white space. -/
def wideBlanks : List (Nat × Nat) :=
  [(0x85, 0x85), (0xa0, 0xa0), (0x1680, 0x1680), (0x2000, 0x200a), (0x2028, 0x2029),
   (0x202f, 0x202f), (0x205f, 0x205f), (0x3000, 0x3000)]

def isWideBlank (c : Char) : Bool :=
  wideBlanks.any fun r => r.1 ≤ c.toNat && c.toNat ≤ r.2

/-- White space of any kind, with the four ASCII information separators. -/
def isBlank (c : Char) : Bool :=
  let n := c.toNat
  (0x9 ≤ n && n ≤ 0xd) || (0x1c ≤ n && n ≤ 0x20) || isWideBlank c

/-- White space that may surround a number. The information separators do not count. -/
def isNumberBlank (c : Char) : Bool :=
  let n := c.toNat
  (0x9 ≤ n && n ≤ 0xd) || n == 0x20 || isWideBlank c

/-- Drops from both ends the characters that satisfy `p`. -/
def trimBy (p : Char → Bool) (cs : List Char) : List Char :=
  ((cs.dropWhile p).reverse.dropWhile p).reverse

/-- The text without the white space at its ends. -/
def trim (s : String) : String := String.ofList (trimBy isBlank s.toList)

end Cadence.Text
