/-
  The Mersenne Twister MT19937, seeded with an integer of any size, and the draws made from it:
  words, bit strings, whole numbers below a bound, and doubles between 0 and 1.
-/
namespace Cadence

/-- The state of the generator: its words, and how many of them have been used. -/
structure Twister where
  words : Array UInt32
  used : Nat

namespace Twister

def size : Nat := 624

def wordAt (words : Array UInt32) (i : Nat) : UInt32 := words.getD i 0

/-- What the previous word contributes to the next one while seeding. -/
def spread (w : UInt32) : UInt32 := w ^^^ (w >>> 30)

/-- Words filled from one word. -/
def fill (seed : UInt32) : Array UInt32 :=
  (List.range (size - 1)).foldl
    (fun words i => words.push (1812433253 * spread (wordAt words i) + UInt32.ofNat (i + 1)))
    #[seed]

/-- The place of the next word while seeding. Behind the last one comes the second, and the first
    is then a copy of the last. -/
def advance (words : Array UInt32) (i : Nat) : Array UInt32 × Nat :=
  if i + 1 < size then (words, i + 1)
  else (words.setIfInBounds 0 (wordAt words (size - 1)), 1)

/-- One step of mixing the key into the words. -/
def mixKey (key : List UInt32) (state : Array UInt32 × Nat) (k : Nat) : Array UInt32 × Nat :=
  let (words, i) := state
  let j := k % key.length
  let w := (wordAt words i ^^^ (spread (wordAt words (i - 1)) * 1664525))
    + key.getD j 0 + UInt32.ofNat j
  advance (words.setIfInBounds i w) i

/-- One step of the second pass. -/
def mixIndex (state : Array UInt32 × Nat) (_ : Nat) : Array UInt32 × Nat :=
  let (words, i) := state
  let w := (wordAt words i ^^^ (spread (wordAt words (i - 1)) * 1566083941)) - UInt32.ofNat i
  advance (words.setIfInBounds i w) i

/-- The words of a generator seeded with a list of words. -/
def seedWords (key : List UInt32) : Array UInt32 :=
  let state := (List.range (max size key.length)).foldl (mixKey key) (fill 19650218, 1)
  let (words, _) := (List.range (size - 1)).foldl mixIndex state
  words.setIfInBounds 0 0x80000000

/-- The 32-bit words of a number, lowest first; a zero has one. -/
def wordsOf (n : Nat) : List UInt32 :=
  (List.range (max 1 ((n.log2 + 32) / 32))).map fun i => UInt32.ofNat (n >>> (32 * i))

/-- A generator seeded with an integer, whose sign does not count. -/
def ofSeed (seed : Int) : Twister :=
  { words := seedWords (wordsOf seed.natAbs), used := size }

/-- One word of the next round. -/
def twist (words : Array UInt32) (k : Nat) : Array UInt32 :=
  let y := (wordAt words k &&& 0x80000000) ||| (wordAt words ((k + 1) % size) &&& 0x7fffffff)
  let w := wordAt words ((k + 397) % size) ^^^ (y >>> 1)
    ^^^ (if y &&& 1 == 0 then 0 else 0x9908b0df)
  words.setIfInBounds k w

def temper (y : UInt32) : UInt32 :=
  let y := y ^^^ (y >>> 11)
  let y := y ^^^ ((y <<< 7) &&& 0x9d2c5680)
  let y := y ^^^ ((y <<< 15) &&& 0xefc60000)
  y ^^^ (y >>> 18)

/-- The next 32 random bits. -/
def next (t : Twister) : UInt32 × Twister :=
  let t := if t.used < size then t
    else { words := (List.range size).foldl twist t.words, used := 0 }
  (temper (wordAt t.words t.used), { t with used := t.used + 1 })

/-- The next `k` random bits as a number, words lowest first. -/
def bits (k : Nat) (t : Twister) : Nat × Twister :=
  if k = 0 then (0, t)
  else if k ≤ 32 then
    let (w, t) := t.next
    (w.toNat >>> (32 - k), t)
  else
    let (w, t) := t.next
    let (high, t) := bits (k - 32) t
    (w.toNat + (high <<< 32), t)

/-- How often a draw that is too large is repeated. Each draw succeeds more often than not. -/
def patience : Nat := 10000

/-- A whole number below a positive bound: draws as many bits as the bound has until the number is
    small enough. -/
def below (bound : Nat) (t : Twister) : Nat × Twister :=
  go patience t
where
  go : Nat → Twister → Nat × Twister
    | 0, t => (0, t)
    | n + 1, t =>
        let (r, t) := bits (bound.log2 + 1) t
        if r < bound then (r, t) else go n t

/-- A double from 0 up to but not including 1, with 53 random bits. -/
def double (t : Twister) : Float × Twister :=
  let (a, t) := t.next
  let (b, t) := t.next
  let n := ((a.toNat >>> 5) <<< 26) + (b.toNat >>> 6)
  (Float.ofNat n / 9007199254740992, t)

end Twister

end Cadence
