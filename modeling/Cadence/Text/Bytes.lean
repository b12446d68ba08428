/-
  The bytes of a text in UTF-8: writing into the middle of them, and reading them back.

  Whole texts are written, but a later one can cover a part of a character of an earlier one. Bytes
  that are left of a character are no text, and are read as replacement characters: one for each
  longest run of bytes that could begin a character, and one for each byte that cannot.
-/
namespace Cadence.Text

/-- Bytes written at a position, over what stands there. Between the end and a position behind it
    come null bytes. -/
def overwrite (old : ByteArray) (position : Nat) (new : ByteArray) : ByteArray :=
  let gap : ByteArray := ⟨Array.replicate (position - old.size) 0⟩
  new.copySlice 0 (if old.size < position then old ++ gap else old) position new.size

def replacement : Char := '\uFFFD'

/-- A character of which some bytes are still missing, the next of them in a range. -/
structure Pending where
  missing : Nat
  low : UInt8
  high : UInt8
  /-- The bits of its code that are known. -/
  code : Nat

/-- What a byte begins: a character, or none. -/
def begun (b : UInt8) : Option Pending :=
  let code := b.toNat
  if b < 0x80 then some ⟨0, 0, 0, code⟩
  else if b < 0xC2 then none
  else if b < 0xE0 then some ⟨1, 0x80, 0xBF, code % 32⟩
  else if b < 0xF0 then
    some ⟨2, if b == 0xE0 then 0xA0 else 0x80, if b == 0xED then 0x9F else 0xBF, code % 16⟩
  else if b < 0xF5 then
    some ⟨3, if b == 0xF0 then 0x90 else 0x80, if b == 0xF4 then 0x8F else 0xBF, code % 8⟩
  else none

/-- The character with one more byte, if that byte belongs to it. -/
def Pending.push (p : Pending) (b : UInt8) : Option Pending :=
  if p.low ≤ b ∧ b ≤ p.high then some ⟨p.missing - 1, 0x80, 0xBF, p.code * 64 + b.toNat % 64⟩
  else none

/-- Finishes a character that is complete, and keeps one that is not. -/
def settle : Option Pending → List Char × Option Pending
  | none => ([replacement], none)
  | some p => if p.missing = 0 then ([Char.ofNat p.code], none) else ([], some p)

/-- One byte read after what was begun before it. -/
def decodeStep (pending : Option Pending) (b : UInt8) : List Char × Option Pending :=
  match pending with
  | none => settle (begun b)
  | some p =>
      match p.push b with
      | some p => settle (some p)
      | none => let (read, rest) := settle (begun b); (replacement :: read, rest)

def decodeFrom (pending : Option Pending) : List UInt8 → List Char
  | [] => if pending.isSome then [replacement] else []
  | b :: rest =>
      let (read, pending) := decodeStep pending b
      read ++ decodeFrom pending rest

/-- The text of bytes, with replacement characters where they are none. -/
def ofBytes (bytes : ByteArray) : String :=
  match String.fromUTF8? bytes with
  | some s => s
  | none => String.ofList (decodeFrom none bytes.toList)

end Cadence.Text
