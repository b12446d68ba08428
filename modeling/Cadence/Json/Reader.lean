/-
  Reading JSON text. Beyond the standard, `NaN`, `Infinity` and `-Infinity` are numbers; a number
  without point and exponent is an integer of any size (up to 4300 digits); of a repeated key the
  last value counts. A text that is no JSON is refused with the offset of the trouble, counted in
  characters.

  `value` and its companions take a bound on the nesting of their calls. `parse` passes twice the
  length of the text, which is enough: of any two nested calls one is behind a further character.
-/
import Cadence.Failure

namespace Cadence.Json

/-- Why a text is no JSON. -/
inductive Problem where
  | at (text : String) (offset : Nat)
  | tooManyDigits (count : Nat)
  deriving DecidableEq, Repr

namespace Reader

/-- What is left to read, and how many characters were read before it. -/
structure Cursor where
  offset : Nat
  rest : List Char

def isBlank (c : Char) : Bool := c == ' ' || c == '\t' || c == '\n' || c == '\r'

def Cursor.skip (c : Cursor) (n : Nat) : Cursor :=
  { offset := c.offset + n, rest := c.rest.drop n }

def skipBlanks (c : Cursor) : Cursor :=
  c.skip (c.rest.takeWhile isBlank).length

def expectingValue (offset : Nat) : Problem := .at "Expecting value" offset

/-! ## Texts -/

def hexValue? (c : Char) : Option Nat :=
  if '0' ≤ c && c ≤ '9' then some (c.toNat - 0x30)
  else if 'a' ≤ c && c ≤ 'f' then some (c.toNat - 0x61 + 10)
  else if 'A' ≤ c && c ≤ 'F' then some (c.toNat - 0x41 + 10)
  else none

/-- The 16-bit unit that four hexadecimal digits spell. -/
def unit? (a b c d : Char) : Option Nat := do
  return 4096 * (← hexValue? a) + 256 * (← hexValue? b) + 16 * (← hexValue? c) + (← hexValue? d)

def isHighSurrogate (n : Nat) : Bool := 0xd800 ≤ n && n ≤ 0xdbff

def isLowSurrogate (n : Nat) : Bool := 0xdc00 ≤ n && n ≤ 0xdfff

/-- The character of a code point. A surrogate that stands alone has none and becomes the
    replacement character. -/
def charOf (n : Nat) : Char :=
  if 0xd800 ≤ n && n ≤ 0xdfff then Char.ofNat 0xfffd else Char.ofNat n

/-- The unit spelled right here by a second escape, with at least one character behind it; inside,
    `none` for malformed digits. -/
def secondUnit? : List Char → Option (Option Nat)
  | '\\' :: 'u' :: a :: b :: c :: d :: _ :: _ => some (unit? a b c d)
  | _ => none

/-- The character behind a backslash, `u` apart. -/
def escaped? : Char → Option Char
  | '"' => some '"'
  | '\\' => some '\\'
  | '/' => some '/'
  | 'b' => some '\x08'
  | 'f' => some '\x0c'
  | 'n' => some '\n'
  | 'r' => some '\r'
  | 't' => some '\t'
  | _ => none

/-- Reads a text up to its closing quote. `start` is the offset of the opening one, `offset` the
    offset of what is left, and `read` holds the characters so far, last first. -/
def textBody (start offset : Nat) (read : List Char) :
    List Char → Except Problem (String × Cursor)
  | [] => .error (.at "Unterminated string starting at" start)
  | '"' :: rest => .ok (String.ofList read.reverse, { offset := offset + 1, rest })
  | '\\' :: 'u' :: a :: b :: c :: d :: e :: rest =>
      match unit? a b c d with
      | none => .error (.at "Invalid \\uXXXX escape" (offset + 1))
      | some high =>
          match if isHighSurrogate high then secondUnit? (e :: rest) else none with
          | some none => .error (.at "Invalid \\uXXXX escape" (offset + 7))
          | some (some low) =>
              if isLowSurrogate low then
                let code := 0x10000 + 0x400 * (high - 0xd800) + (low - 0xdc00)
                textBody start (offset + 12) (charOf code :: read) (rest.drop 5)
              else textBody start (offset + 6) (charOf high :: read) (e :: rest)
          | none => textBody start (offset + 6) (charOf high :: read) (e :: rest)
  | '\\' :: 'u' :: _ => .error (.at "Invalid \\uXXXX escape" (offset + 1))
  | '\\' :: c :: rest =>
      match escaped? c with
      | some x => textBody start (offset + 2) (x :: read) rest
      | none => .error (.at "Invalid \\escape" offset)
  | '\\' :: [] => .error (.at "Unterminated string starting at" start)
  | c :: rest =>
      if c.toNat ≤ 0x1f then .error (.at "Invalid control character at" offset)
      else textBody start (offset + 1) (c :: read) rest
termination_by cs => cs.length
decreasing_by all_goals simp only [List.length_cons, List.length_drop]; omega

/-! ## Numbers -/

/-- The digits of a whole number: a zero alone, or digits that do not start with zero. -/
def wholeDigits : List Char → List Char
  | '0' :: _ => ['0']
  | cs => cs.takeWhile Text.isAsciiDigit

/-- The digits behind a point, if there are any. -/
def fractionDigits : List Char → List Char
  | '.' :: rest => rest.takeWhile Text.isAsciiDigit
  | _ => []

/-- The power of ten behind a number and the number of characters it takes. -/
def exponentPart : List Char → Option (Int × Nat)
  | e :: rest =>
      if e == 'e' || e == 'E' then
        let (negative, ds) := Text.takeSign rest
        let digits := ds.takeWhile Text.isAsciiDigit
        if digits.isEmpty then none
        else some (Double.negate negative (Text.natOfDigits digits),
          1 + (rest.length - ds.length) + digits.length)
      else none
  | [] => none

/-- A number, if one starts here. -/
def number (c : Cursor) : Except Problem (Json × Cursor) :=
  let (negative, cs) := match c.rest with
    | '-' :: rest => (true, rest)
    | cs => (false, cs)
  let whole := wholeDigits cs
  if whole.isEmpty then .error (expectingValue c.offset)
  else
    let afterWhole := cs.drop whole.length
    let fraction := fractionDigits afterWhole
    let fractionLength := if fraction.isEmpty then 0 else fraction.length + 1
    let exponent := exponentPart (afterWhole.drop fractionLength)
    let length := (if negative then 1 else 0) + whole.length + fractionLength
      + (exponent.map Prod.snd).getD 0
    let after := c.skip length
    if fraction.isEmpty && exponent.isNone then
      match Text.intOfDigits negative whole with
      | .ok n => .ok (.int n, after)
      | .error _ => .error (.tooManyDigits whole.length)
    else
      let parts : Text.DecimalParts :=
        { whole, fraction, exponent := (exponent.map Prod.fst).getD 0 }
      .ok (.double (parts.toDouble negative), after)

/-- The words that are values. -/
def words : List (String × Json) :=
  [("null", .null), ("true", .bool true), ("false", .bool false), ("NaN", .double (0 / 0)),
   ("Infinity", .double (1 / 0)), ("-Infinity", .double (-(1 / 0)))]

def word? (cs : List Char) : Option (Json × Nat) :=
  words.findSome? fun (w, v) =>
    if w.toList.isPrefixOf cs then some (v, w.length) else none

/-! ## Values -/

mutual
def value : Nat → Cursor → Except Problem (Json × Cursor)
  | 0, c => .error (expectingValue c.offset)
  | fuel + 1, c =>
      match c.rest with
      | [] => .error (expectingValue c.offset)
      | '"' :: rest =>
          (textBody c.offset (c.offset + 1) [] rest).map fun (s, after) => (.text s, after)
      | '[' :: _ =>
          let inside := skipBlanks (c.skip 1)
          match inside.rest with
          | ']' :: _ => .ok (.list [], inside.skip 1)
          | _ => items fuel [] inside
      | '\x7b' :: _ =>
          let inside := skipBlanks (c.skip 1)
          match inside.rest with
          | '\x7d' :: _ => .ok (.object [], inside.skip 1)
          | _ => members fuel [] inside
      | cs =>
          match word? cs with
          | some (v, length) => .ok (v, c.skip length)
          | none => number c

/-- The items of a list from the next one on; `read` holds those before it, last first. -/
def items : Nat → List Json → Cursor → Except Problem (Json × Cursor)
  | 0, _, c => .error (expectingValue c.offset)
  | fuel + 1, read, c =>
      match value fuel c with
      | .error p => .error p
      | .ok (v, after) =>
          let after := skipBlanks after
          match after.rest with
          | ']' :: _ => .ok (.list (v :: read).reverse, after.skip 1)
          | ',' :: _ => items fuel (v :: read) (skipBlanks (after.skip 1))
          | _ => .error (.at "Expecting ',' delimiter" after.offset)

/-- The fields of an object from the next one on. -/
def members : Nat → List (String × Json) → Cursor → Except Problem (Json × Cursor)
  | 0, _, c => .error (expectingValue c.offset)
  | fuel + 1, read, c =>
      match c.rest with
      | '"' :: rest =>
          match textBody c.offset (c.offset + 1) [] rest with
          | .error p => .error p
          | .ok (key, colon) =>
              let colon := skipBlanks colon
              match colon.rest with
              | ':' :: _ =>
                  match value fuel (skipBlanks (colon.skip 1)) with
                  | .error p => .error p
                  | .ok (v, after) =>
                      let after := skipBlanks after
                      let read := setField key v read
                      match after.rest with
                      | '\x7d' :: _ => .ok (.object read, after.skip 1)
                      | ',' :: _ => members fuel read (skipBlanks (after.skip 1))
                      | _ => .error (.at "Expecting ',' delimiter" after.offset)
              | _ => .error (.at "Expecting ':' delimiter" colon.offset)
      | _ => .error (.at "Expecting property name enclosed in double quotes" c.offset)
end

end Reader

/-- Reads a whole text as one JSON value. -/
def parse (s : String) : Except Problem Json :=
  let cs := s.toList
  if cs.head? == some (Char.ofNat 0xfeff) then
    .error (.at "Unexpected UTF-8 BOM (decode using utf-8-sig)" 0)
  else
    match Reader.value (2 * cs.length + 2) (Reader.skipBlanks { offset := 0, rest := cs }) with
    | .error p => .error p
    | .ok (v, after) =>
        let after := Reader.skipBlanks after
        if after.rest.isEmpty then .ok v else .error (.at "Extra data" after.offset)

/-- The problem with the line and column of its offset in the text. -/
def Problem.locate (s : String) : Problem → Defect
  | .tooManyDigits count => .tooManyDigits count
  | .at problem offset =>
      let before := s.toList.take offset
      let line := before.count '\n' + 1
      let column := (before.reverse.takeWhile (· != '\n')).length + 1
      .json problem line column offset

/-- Line ends of any kind as single line feeds. -/
def normalizeLines : List Char → List Char
  | '\r' :: '\n' :: rest => '\n' :: normalizeLines rest
  | '\r' :: rest => '\n' :: normalizeLines rest
  | c :: rest => c :: normalizeLines rest
  | [] => []

/-- Reads the text of a file as JSON. -/
def ofFileText (text : String) : Except Failure Json :=
  let text := String.ofList (normalizeLines text.toList)
  match parse text with
  | .ok v => .ok v
  | .error p => .error (.defect (p.locate text))

end Cadence.Json
