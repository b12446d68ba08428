/-
  Operators follow their table.

  `rows` lists, for each operator, the kinds of operands that it is defined for and the kind of the
  result. For other operands an operator is a fault that says so. Where it is defined, the result is
  of the kind in the table and of the same class of values as the operands (`Operands`), or the
  operands are at fault. Two such classes matter: the values that meet a standard (`binary_safe`)
  and the operands that the table is made for (`operators_conform`).

  Most of the table is immediate. Pitches computed from a semitone and a 64-bit integer stay far
  below the numbers that cannot be written out, and an array that is not empty is repeated within
  the largest length at most that many times.
-/
import Cadence.Proofs.Standard

namespace Cadence

namespace Operator

/-! ## The table -/

/-- Arithmetic on two numbers. -/
def numeric : List ((Tag × Tag) × Tag) :=
  [((.int, .int), .int), ((.int, .double), .double), ((.double, .int), .double),
   ((.double, .double), .double)]

/-- The kinds of the operands that a binary operator is defined for, and the kind of the result. -/
def rows : String → List ((Tag × Tag) × Tag)
  | "+" | "-" => numeric ++ [((.int, .pitch), .pitch), ((.pitch, .int), .pitch)]
  | "*" => numeric ++
      [((.int, .array), .array), ((.array, .int), .array), ((.sound, .int), .sound),
       ((.sound, .double), .sound), ((.int, .sound), .sound), ((.double, .sound), .sound),
       ((.pitch, .int), .pitch)]
  | "/" => numeric ++ [((.pitch, .int), .pitch), ((.int, .pitch), .pitch)]
  | "%" => [((.int, .int), .int), ((.pitch, .int), .pitch), ((.int, .pitch), .pitch)]
  | "&&" | "||" => [((.bool, .bool), .bool)]
  | "==" | "!=" | "<" | ">" | "<=" | ">=" =>
      [((.int, .int), .bool), ((.int, .double), .bool), ((.double, .int), .bool),
       ((.double, .double), .bool), ((.pitch, .pitch), .bool), ((.pitch, .int), .bool),
       ((.int, .pitch), .bool), ((.bool, .bool), .bool)]
  | _ => []

/-- The kind of the result of a binary operator, if it is defined. -/
def row? (op : String) (l r : Tag) : Option Tag :=
  ((rows op).find? fun row => row.1 == (l, r)).map Prod.snd

/-- The kind of the result of a unary operator, if it is defined. -/
def unaryRow? : String → Tag → Option Tag
  | "!", .bool => some .bool
  | "-", .int => some .int
  | "-", .double => some .double
  | _, _ => none

def Binary.text : Binary → String
  | .arithmetic .add => "+"
  | .arithmetic .sub => "-"
  | .arithmetic .mul => "*"
  | .div => "/"
  | .mod => "%"
  | .and => "&&"
  | .or => "||"
  | .comparison .eq => "=="
  | .comparison .ne => "!="
  | .comparison .lt => "<"
  | .comparison .gt => ">"
  | .comparison .le => "<="
  | .comparison .ge => ">="

theorem Binary.eq_text {s : String} {op : Binary} (h : ofText? s = some op) : s = op.text := by
  unfold ofText? at h
  split at h <;> cases h <;> rfl

/-- What is no operator has no row. -/
theorem row?_of_none {s : String} (h : Binary.ofText? s = none) (l r : Tag) :
    row? s l r = none := by
  have empty : rows s = [] := by
    unfold rows
    split <;> first | rfl | cases h
  unfold row?
  rw [empty]
  rfl

/-- The pairs of kinds that some operator is defined for. -/
def pairs : List (Tag × Tag) :=
  [(.int, .int), (.int, .double), (.double, .int), (.double, .double), (.int, .pitch),
   (.pitch, .int), (.pitch, .pitch), (.int, .array), (.array, .int), (.sound, .int),
   (.sound, .double), (.int, .sound), (.double, .sound), (.bool, .bool)]

theorem row?_of_not_pair {l r : Tag} (no : pairs.contains (l, r) = false) (s : String) :
    row? s l r = none := by
  have listed : ((rows s).all fun row => pairs.contains row.1) = true := by
    unfold rows
    split <;> rfl
  unfold row?
  rw [Option.map_eq_none_iff, List.find?_eq_none]
  intro row member same
  have there := List.all_eq_true.1 listed row member
  rw [beq_iff_eq.1 same, no] at there
  cases there

/-- Numbers that are not both integers are treated alike. -/
theorem row?_mixed (s : String) :
    row? s .int .double = row? s .double .double ∧
      row? s .double .int = row? s .double .double := by
  unfold row? rows
  split <;> exact ⟨rfl, rfl⟩

/-- A sound is scaled from either side, by either kind of number. -/
theorem row?_scaled (s : String) :
    row? s .sound .double = row? s .sound .int ∧ row? s .int .sound = row? s .sound .int ∧
      row? s .double .sound = row? s .sound .int := by
  unfold row? rows
  split <;> exact ⟨rfl, rfl, rfl⟩

/-- An array is repeated from either side. -/
theorem row?_repeated (s : String) : row? s .int .array = row? s .array .int := by
  unfold row? rows
  split <;> rfl

end Operator

/-! ## Faults of operands -/

namespace Fault

/-- The faults of operands that are of the right kinds. -/
def ofOperands : Fault → Bool
  | .divisionByZero | .moduloByZero | .pitchOutOfRange _ | .repeatCount _ | .repeatTooLong .. =>
      true
  | _ => false

theorem kind_ofOperands {f : Fault} (h : f.ofOperands = true) : f.kind = .invalidOperation := by
  cases f with
  | divisionByZero | moduloByZero | pitchOutOfRange | repeatCount | repeatTooLong => rfl
  | _ => cases h

theorem head?_append {s : String} {c : Char} (h : s.toList.head? = some c) (t : String) :
    (s ++ t).toList.head? = some c := by
  rw [String.toList_append, List.head?_append, h]
  rfl

/-- The messages about operands can be told by their first letter. -/
theorem message_ofOperands {f : Fault} (h : f.ofOperands = true) :
    ∃ c ∈ ['d', 'm', 'p', 'c', 'r'], f.message.toList.head? = some c := by
  cases f with
  | divisionByZero => exact ⟨'d', by simp, rfl⟩
  | moduloByZero => exact ⟨'m', by simp, rfl⟩
  | pitchOutOfRange => exact ⟨'p', by simp, head?_append (head?_append rfl _) _⟩
  | repeatCount => exact ⟨'c', by simp, head?_append (head?_append rfl _) _⟩
  | repeatTooLong =>
      refine ⟨'r', by simp, ?_⟩
      exact head?_append (head?_append (head?_append (head?_append (head?_append
        (head?_append rfl _) _) _) _) _) _
  | _ => cases h

end Fault

/-! ## Classes of operands -/

/-- A class of values with what operators need to stay in it, and the failures that they may end
    with. -/
structure Operands where
  value : Value → Prop
  fails : Failure → Prop
  fault : ∀ {f : Fault}, f.ofOperands = true → fails (.fault f)
  int : ∀ {n}, value (.int n) ↔ Integer.InRange n
  double : ∀ x, value (.double x)
  bool : ∀ b, value (.bool b)
  /-- A pitch that has a semitone is in the class. -/
  pitch : ∀ {name n}, Pitch.semitone name = .ok n → value (.pitch (.text name))
  semitone : ∀ {name}, value (.pitch name) →
    Yields (fun n => n.natAbs ≤ 119) fails (Pitch.semitoneOf name)
  sound : ∀ {s}, value (.sound s) → ∀ duration, value (.sound { s with duration })
  nonempty : ∀ {items}, value (.array items) → 0 < items.size
  /-- An array of items of an array in the class is in the class. -/
  array : ∀ {items items' : Array Value}, value (.array items) → 0 < items'.size →
    items'.size ≤ maxArrayLength → (∀ v ∈ items', v ∈ items) → value (.array items')

/-- The semitone of a pitch, bounded for what is computed from it. -/
theorem Standard.semitone_bounded (S : Standard) {name : String} (h : S.pitch name) :
    Safe (Pitch.semitone name) fun n => n.natAbs ≤ 119 :=
  (Pitch.semitone_safe (S.regular h)).mono fun n _ range => by
    have : n ≤ 119 := range.2
    omega

/-- The values that meet a standard, with any fault. -/
def Standard.operands (S : Standard) : Operands where
  value := Value.Meets S
  fails := Failure.IsFault
  fault _ := ⟨_, rfl⟩
  int := ⟨fun h => by cases h with | int range => exact range, .int⟩
  double := .double
  bool := .bool
  pitch named := .pitch (S.accepted named)
  semitone h := by cases h with | pitch h => exact S.semitone_bounded h
  sound h _ := by cases h with | sound h => exact .sound ⟨h.pitches, h.size, h.amplitude⟩
  nonempty h := h.nonempty
  array h pos short sub := .array pos (S.allowed short) fun v hv => h.each (sub v hv)

/-- An operand: its integers are 64-bit integers, its pitches have a semitone, and its arrays are
    neither empty nor longer than arrays can grow. Its sounds may be any. -/
inductive Value.Operand : Value → Prop
  | int {n : Int} (range : Integer.InRange n) : Operand (.int n)
  | double (x : Float) : Operand (.double x)
  | bool (b : Bool) : Operand (.bool b)
  | pitch {name : String} {n : Int} (h : Pitch.semitone name = .ok n) :
      Operand (.pitch (.text name))
  | sound (s : Sound) : Operand (.sound s)
  | array {items : Array Value} (nonempty : 0 < items.size)
      (short : items.size ≤ maxArrayLength) (each : ∀ v ∈ items, Operand v) :
      Operand (.array items)

/-- Operands in general, with the faults of operands only. -/
def Operands.general : Operands where
  value := Value.Operand
  fails e := ∃ f : Fault, e = .fault f ∧ f.ofOperands = true
  fault h := ⟨_, rfl, h⟩
  int := ⟨fun h => by cases h with | int range => exact range, .int⟩
  double := .double
  bool := .bool
  pitch := .pitch
  semitone h := by
    cases h with
    | pitch h =>
        have range := (Pitch.semitone_eq_ok h).2
        show Yields _ _ (Pitch.semitone _)
        rw [h]
        refine .ok ?_
        have : _ ≤ (119 : Int) := range.2
        omega
  sound _ _ := .sound _
  nonempty h := by cases h with | array nonempty => exact nonempty
  array h pos short sub := by
    cases h with | array _ _ each => exact .array pos short fun v hv => each v (sub v hv)

namespace Operator

variable {K : Operands}

/-- What an operator gives, given the kind of its result if it is defined. -/
inductive Follows (K : Operands) : Option Tag → Option (Except Failure Value) → Prop
  | undefined : Follows K none none
  | defined {kind : Tag} {r : Except Failure Value}
      (h : Yields (fun v => K.value v ∧ v.tag = .ok kind) K.fails r) :
      Follows K (some kind) (some r)

theorem follows_some {kind? : Option Tag} {kind : Tag} {r : Except Failure Value}
    (row : kind? = some kind) (h : Yields (fun v => K.value v ∧ v.tag = .ok kind) K.fails r) :
    Follows K kind? (some r) :=
  row ▸ .defined h

theorem follows_none {kind? : Option Tag} (row : kind? = none) : Follows K kind? none :=
  row ▸ .undefined

/-! ## Numbers -/

theorem ints_follows (op : Binary) (a b : Int) :
    Follows K (row? op.text .int .int) (op.ints a b) := by
  have wrapped {n : Int} (h : Integer.InRange n) :
      K.value (.int n) ∧ (Value.int n).tag = .ok .int := ⟨K.int.2 h, rfl⟩
  cases op with
  | arithmetic op =>
      exact follows_some (by cases op <;> rfl) (.ok (wrapped (Integer.wrap_inRange _)))
  | div =>
      exact follows_some rfl
        ((Integer.div_yields (K.fault rfl) a b).map fun _ _ h => wrapped h)
  | mod =>
      exact follows_some rfl
        ((Integer.mod_yields (K.fault rfl) a b).map fun _ _ h => wrapped h)
  | comparison op => exact follows_some (by cases op <;> rfl) (.ok ⟨K.bool _, rfl⟩)
  | and | or => exact follows_none rfl

/-- Two numbers that are not both integers: compared, or computed as doubles. -/
theorem mixed_follows (op : Binary) {a b : Except Failure Float} (compared : Comparison → Bool)
    (ha : Yields (fun _ => True) K.fails a) (hb : Yields (fun _ => True) K.fails b) :
    Follows K (row? op.text .double .double) (match op with
      | .comparison c => some (.ok (.bool (compared c)))
      | _ => op.doubles a b) := by
  cases op with
  | arithmetic op =>
      refine follows_some (by cases op <;> rfl) (ha.bind fun x _ _ => hb.bind fun y _ _ => ?_)
      exact .ok ⟨K.double _, rfl⟩
  | div =>
      refine follows_some rfl (ha.bind fun x _ _ => hb.bind fun y _ _ => ?_)
      have quotient : Yields (fun _ => True) K.fails (divDoubles x y) := by
        unfold divDoubles
        split
        · exact .error (K.fault rfl)
        · exact .ok trivial
      exact quotient.bind fun z _ _ => .ok ⟨K.double z, rfl⟩
  | comparison op => exact follows_some (by cases op <;> rfl) (.ok ⟨K.bool _, rfl⟩)
  | mod | and | or => exact follows_none rfl

theorem bools_follows (op : Binary) (a b : Bool) :
    Follows K (row? op.text .bool .bool) (op.bools a b) := by
  cases op with
  | and | or => exact follows_some rfl (.ok ⟨K.bool _, rfl⟩)
  | comparison op => exact follows_some (by cases op <;> rfl) (.ok ⟨K.bool _, rfl⟩)
  | arithmetic op => exact follows_none (by cases op <;> rfl)
  | div | mod => exact follows_none rfl

/-! ## Pitches -/

/-- A number that can be named in a message. -/
def Writable (n : Int) : Prop := n.natAbs < Nat.pow 10 Text.maxIntDigits

theorem writable_of_le {n : Int} (h : n.natAbs ≤ 0x100000000000000000000) : Writable n := by
  have huge : 0x100000000000000000000 < Nat.pow 10 Text.maxIntDigits := by decide +kernel
  exact Nat.lt_of_le_of_lt h huge

theorem writable_of_inRange {n : Int} (h : Integer.InRange n) : Writable n := by
  have := Integer.natAbs_le_of_inRange h
  exact writable_of_le (by omega)

/-- Arithmetic on a semitone and a 64-bit integer, whichever comes first. -/
theorem writable_onInts (op : Arithmetic) {a b : Int} (ha : a.natAbs ≤ 0x8000000000000000)
    (hb : b.natAbs ≤ 0x8000000000000000) (small : a.natAbs ≤ 119 ∨ b.natAbs ≤ 119) :
    Writable (op.onInts a b) := by
  apply writable_of_le
  cases op with
  | add =>
      show (a + b).natAbs ≤ _
      omega
  | sub =>
      show (a - b).natAbs ≤ _
      omega
  | mul =>
      show (a * b).natAbs ≤ _
      rw [Int.natAbs_mul]
      rcases small with h | h
      · have := Nat.mul_le_mul h hb
        omega
      · have := Nat.mul_le_mul ha h
        omega

theorem pitchAt_yields {r : Except Failure Int} (h : Yields Writable K.fails r) :
    Yields (fun v => K.value v ∧ v.tag = .ok .pitch) K.fails (pitchAt r) :=
  h.bind fun _ _ hn => (Pitch.ofSemitone_yields hn (K.fault rfl)).bind fun _ _ named =>
    .ok ⟨K.pitch named, rfl⟩

theorem pitchAt_inRange {r : Except Failure Int} (h : Yields Integer.InRange K.fails r) :
    Yields (fun v => K.value v ∧ v.tag = .ok .pitch) K.fails (pitchAt r) :=
  pitchAt_yields (h.mono fun _ _ range => writable_of_inRange range)

theorem pitchInt_follows (op : Binary) {p : Except Failure Int} {n : Int}
    (hp : Yields (fun k => k.natAbs ≤ 119) K.fails p) (hn : Integer.InRange n) :
    Follows K (row? op.text .pitch .int) (op.pitchInt p n) := by
  have bound := Integer.natAbs_le_of_inRange hn
  cases op with
  | arithmetic op =>
      refine follows_some (by cases op <;> rfl) (pitchAt_yields (hp.map fun k _ hk => ?_))
      exact writable_onInts op (by omega) bound (.inl hk)
  | div =>
      refine follows_some rfl (pitchAt_inRange (hp.bind fun k _ _ => ?_))
      exact Integer.div_yields (K.fault rfl) k n
  | mod =>
      refine follows_some rfl (pitchAt_inRange (hp.bind fun k _ _ => ?_))
      exact Integer.mod_yields (K.fault rfl) k n
  | comparison op =>
      exact follows_some (by cases op <;> rfl) (hp.map fun _ _ _ => ⟨K.bool _, rfl⟩)
  | and | or => exact follows_none rfl

theorem intPitch_follows (op : Binary) {p : Except Failure Int} {n : Int}
    (hp : Yields (fun k => k.natAbs ≤ 119) K.fails p) (hn : Integer.InRange n) :
    Follows K (row? op.text .int .pitch) (op.intPitch n p) := by
  have bound := Integer.natAbs_le_of_inRange hn
  cases op with
  | arithmetic op =>
      cases op with
      | mul => exact follows_none rfl
      | add | sub =>
          refine follows_some rfl (pitchAt_yields (hp.map fun k _ hk => ?_))
          exact writable_onInts _ bound (by omega) (.inr hk)
  | div =>
      refine follows_some rfl (pitchAt_inRange (hp.bind fun k _ _ => ?_))
      exact Integer.div_yields (K.fault rfl) n k
  | mod =>
      refine follows_some rfl (pitchAt_inRange (hp.bind fun k _ _ => ?_))
      exact Integer.mod_yields (K.fault rfl) n k
  | comparison op =>
      exact follows_some (by cases op <;> rfl) (hp.map fun _ _ _ => ⟨K.bool _, rfl⟩)
  | and | or => exact follows_none rfl

theorem pitches_follows (op : Binary) {p q : Except Failure Int}
    (hp : Yields (fun k => k.natAbs ≤ 119) K.fails p)
    (hq : Yields (fun k => k.natAbs ≤ 119) K.fails q) :
    Follows K (row? op.text .pitch .pitch) (op.pitches p q) := by
  cases op with
  | comparison op =>
      refine follows_some (by cases op <;> rfl) (hp.bind fun _ _ _ => hq.bind fun _ _ _ => ?_)
      exact .ok ⟨K.bool _, rfl⟩
  | arithmetic op => exact follows_none (by cases op <;> rfl)
  | div | mod | and | or => exact follows_none rfl

/-! ## Sounds and arrays -/

theorem scaling_follows (op : Binary) {s : Sound} (hs : K.value (.sound s))
    {factor : Except Failure Float} (hf : Yields (fun _ => True) K.fails factor) :
    Follows K (row? op.text .sound .int) (op.scaling s factor) := by
  cases op with
  | arithmetic op =>
      cases op with
      | mul => exact follows_some rfl (hf.map fun _ _ _ => ⟨K.sound hs _, rfl⟩)
      | add | sub => exact follows_none rfl
  | comparison op => exact follows_none (by cases op <;> rfl)
  | div | mod | and | or => exact follows_none rfl

theorem mem_of_mem_copies {items : Array Value} {times : Nat} {v : Value}
    (h : v ∈ copies items times) : v ∈ items := by
  obtain ⟨i, rfl⟩ := Array.mem_ofFn.1 h
  exact Array.getElem_mem _

theorem size_copies (items : Array Value) (times : Nat) :
    (copies items times).size = items.size * times := Array.size_ofFn

theorem natCast_size_copies (items : Array Value) {times : Int} (nonneg : 0 ≤ times) :
    ((copies items times.toNat).size : Int) = items.size * times := by
  rw [size_copies, Int.natCast_mul, Int.toNat_of_nonneg nonneg]

/-- The bound on the length bounds the count too, where there is an item to copy. -/
theorem repeated_eq {items : Array Value} (nonempty : 0 < items.size) (times : Int) :
    repeated items times =
      if times < 1 then .error (.fault (.repeatCount times))
      else if (maxArrayLength : Int) < items.size * times then
        .error (.fault (.repeatTooLong items.size times))
      else .ok (.array (copies items times.toNat)) := by
  unfold repeated
  split
  · rfl
  · split
    · rfl
    · next positive short =>
        -- one copy has an item at least, so there are no more copies than items
        have few : 1 * times ≤ items.size * times :=
          Int.mul_le_mul_of_nonneg_right (by omega) (by omega)
        have large : (maxArrayLength : Int) ≤ Integer.maxInt := by decide
        exact if_neg (by omega)

theorem repeated_yields {items : Array Value} (h : K.value (.array items)) (times : Int) :
    Yields (fun v => K.value v ∧ v.tag = .ok .array) K.fails (repeated items times) := by
  have nonempty := K.nonempty h
  rw [repeated_eq nonempty]
  split
  · exact .error (K.fault rfl)
  · split
    · exact .error (K.fault rfl)
    · next positive short =>
        have size := natCast_size_copies items (show 0 ≤ times by omega)
        refine .ok ⟨K.array h ?_ (by omega) fun v hv => mem_of_mem_copies hv, rfl⟩
        rw [size_copies]
        exact Nat.mul_pos nonempty (by omega)

theorem repetition_follows (op : Binary) {items : Array Value} (h : K.value (.array items))
    (times : Int) : Follows K (row? op.text .array .int) (op.repetition items times) := by
  cases op with
  | arithmetic op =>
      cases op with
      | mul => exact follows_some rfl (repeated_yields h times)
      | add | sub => exact follows_none rfl
  | comparison op => exact follows_none (by cases op <;> rfl)
  | div | mod | and | or => exact follows_none rfl

/-! ## All operators -/

theorem table_follows (op : Binary) {a b : Value} {l r : Tag} (ha : K.value a) (hb : K.value b)
    (hl : a.tag = .ok l) (hr : b.tag = .ok r) :
    Follows K (row? op.text l r) <| op.apply? a b := by
  have given (x : Float) : Yields (fun _ => True) K.fails (.ok x : Except Failure Float) :=
    .ok trivial
  have converted {n : Int} (h : K.value (.int n)) :
      Yields (fun _ => True) K.fails (Integer.toDouble n) := Integer.toDouble_yields (K.int.1 h)
  have scaled := row?_scaled op.text
  cases a with
  | int n =>
      cases hl
      cases b with
      | int => cases hr; exact ints_follows op _ _
      | double x =>
          cases hr
          rw [(row?_mixed op.text).1]
          exact mixed_follows op _ (converted ha) (given x)
      | pitch => cases hr; exact intPitch_follows op (K.semitone hb) (K.int.1 ha)
      | sound => cases hr; rw [scaled.2.1]; exact scaling_follows op hb (converted ha)
      | array => cases hr; rw [row?_repeated]; exact repetition_follows op hb n
      | bool => cases hr; exact follows_none (row?_of_not_pair rfl _)
      | ref | foreign => cases hr
  | double x =>
      cases hl
      cases b with
      | int =>
          cases hr
          rw [(row?_mixed op.text).2]
          exact mixed_follows op _ (given x) (converted hb)
      | double y => cases hr; exact mixed_follows op _ (given x) (given y)
      | sound => cases hr; rw [scaled.2.2]; exact scaling_follows op hb (given x)
      | bool | pitch | array => cases hr; exact follows_none (row?_of_not_pair rfl _)
      | ref | foreign => cases hr
  | bool =>
      cases hl
      cases b with
      | bool => cases hr; exact bools_follows op _ _
      | int | double | pitch | sound | array =>
          cases hr
          exact follows_none (row?_of_not_pair rfl _)
      | ref | foreign => cases hr
  | pitch =>
      cases hl
      cases b with
      | int => cases hr; exact pitchInt_follows op (K.semitone ha) (K.int.1 hb)
      | pitch => cases hr; exact pitches_follows op (K.semitone ha) (K.semitone hb)
      | double | bool | sound | array => cases hr; exact follows_none (row?_of_not_pair rfl _)
      | ref | foreign => cases hr
  | sound =>
      cases hl
      cases b with
      | int => cases hr; exact scaling_follows op ha (converted hb)
      | double y => cases hr; rw [scaled.1]; exact scaling_follows op ha (given y)
      | bool | pitch | sound | array => cases hr; exact follows_none (row?_of_not_pair rfl _)
      | ref | foreign => cases hr
  | array =>
      cases hl
      cases b with
      | int n => cases hr; exact repetition_follows op ha n
      | double | bool | pitch | sound | array =>
          cases hr
          exact follows_none (row?_of_not_pair rfl _)
      | ref | foreign => cases hr
  | ref | foreign => cases hl

theorem unary_follows (op : String) {a : Value} {t : Tag} (ha : K.value a) (ht : a.tag = .ok t) :
    Follows K (unaryRow? op t) ((Unary.ofText? op).bind fun o => o.apply? a) := by
  by_cases no : op = "!"
  · subst no
    cases a with
    | bool => cases ht; exact follows_some rfl (.ok ⟨K.bool _, rfl⟩)
    | int | double | pitch | sound | array => cases ht; exact follows_none rfl
    | ref | foreign => cases ht
  by_cases minus : op = "-"
  · subst minus
    cases a with
    | int => cases ht; exact follows_some rfl (.ok ⟨K.int.2 (Integer.wrap_inRange _), rfl⟩)
    | double => cases ht; exact follows_some rfl (.ok ⟨K.double _, rfl⟩)
    | bool | pitch | sound | array => cases ht; exact follows_none rfl
    | ref | foreign => cases ht
  · have unknown : Unary.ofText? op = none := by
      unfold Unary.ofText?
      split
      · exact absurd rfl no
      · exact absurd rfl minus
      · rfl
    rw [unknown]
    exact follows_none (by simp [unaryRow?, no, minus])

/-- A result as a row of the table says. Without a row it is a certain fault. -/
def Result (K : Operands) (kind? : Option Tag) (undefined : Fault) (r : Except Failure Value) :
    Prop :=
  match kind? with
  | some kind => Yields (fun v => K.value v ∧ v.tag = .ok kind) K.fails r
  | none => r = .error (.fault undefined)

theorem Follows.result {kind? : Option Tag} {o : Option (Except Failure Value)}
    (h : Follows K kind? o) (undefined : Fault) :
    Result K kind? undefined (o.getD (.error (.fault undefined))) := by
  cases h with
  | undefined => rfl
  | defined h => exact h

/-- An operator given by its text, for operands that have a kind. -/
theorem binary_text (op : String) {a b : Value} {l r : Tag} (hl : a.tag = .ok l)
    (hr : b.tag = .ok r) :
    binary (.text op) a b = ((Binary.ofText? op).bind fun o => o.apply? a b).getD
      (.error (.fault (.noBinary (.text op) l r))) := by
  have known : named Binary.ofText? (.text op) = Binary.ofText? op := rfl
  simp only [binary, hl, hr, nameOf, Name.ofJson?, bind, Except.bind, known]
  cases (Binary.ofText? op).bind fun o => o.apply? a b <;> rfl

theorem binary_result (op : String) {a b : Value} {l r : Tag} (ha : K.value a) (hb : K.value b)
    (hl : a.tag = .ok l) (hr : b.tag = .ok r) :
    Result K (row? op l r) (.noBinary (.text op) l r) (binary (.text op) a b) := by
  have follows : Follows K (row? op l r) ((Binary.ofText? op).bind fun o => o.apply? a b) := by
    cases known : Binary.ofText? op with
    | none => exact follows_none (row?_of_none known l r)
    | some o =>
        rw [Binary.eq_text known]
        exact table_follows o ha hb hl hr
  rw [binary_text op hl hr]
  exact follows.result _

theorem unary_result (op : String) {a : Value} {t : Tag} (ha : K.value a) (ht : a.tag = .ok t) :
    Result K (unaryRow? op t) (.noUnary (.text op) t) (unary (.text op) a) := by
  have eq : unary (.text op) a = ((Unary.ofText? op).bind fun o => o.apply? a).getD
      (.error (.fault (.noUnary (.text op) t))) := by
    have known : named Unary.ofText? (.text op) = Unary.ofText? op := rfl
    simp only [unary, ht, nameOf, Name.ofJson?, bind, Except.bind, known]
    cases (Unary.ofText? op).bind fun o => o.apply? a <;> rfl
  rw [eq]
  exact (unary_follows op ha ht).result _

/-! ## Values that meet a standard -/

variable {S : Standard}

theorem Result.safe {kind? : Option Tag} {undefined : Fault} {r : Except Failure Value}
    (h : Result S.operands kind? undefined r) : Safe r (Value.Meets S) := by
  cases kind? with
  | some kind => exact Yields.mono h fun _ _ => And.left
  | none => exact h ▸ safe_fault undefined

/-- An operator named by a text. -/
theorem binary_safe (op : String) {a b : Value} (ha : a.Meets S) (hb : b.Meets S) :
    Safe (binary (.text op) a b) (Value.Meets S) := by
  obtain ⟨l, hl⟩ := ha.tag_eq
  obtain ⟨r, hr⟩ := hb.tag_eq
  exact (binary_result (K := S.operands) op ha hb hl hr).safe

theorem unary_safe (op : String) {a : Value} (ha : a.Meets S) :
    Safe (unary (.text op) a) (Value.Meets S) := by
  obtain ⟨t, ht⟩ := ha.tag_eq
  exact (unary_result (K := S.operands) op ha ht).safe

/-! ## Operands in general -/

/-- The result of an operator as the table has it, given the kind in its row, if there is one, and
    the message for want of a row: an operand of that kind, or a fault of an invalid operation. It
    is the fault with the message exactly if there is no row. -/
structure Conforms (kind? : Option Tag) (message : String) (r : Except Failure Value) : Prop where
  result : Yields (fun v => v.Operand ∧ ∃ kind, kind? = some kind ∧ v.tag = .ok kind)
    (fun e => ∃ f : Fault, e = .fault f ∧ f.kind = .invalidOperation) r
  undefined : (∃ f : Fault, r = .error (.fault f) ∧ f.message = message) ↔ kind? = none

theorem Result.conforms {kind? : Option Tag} {undefined : Fault} {r : Except Failure Value}
    (h : Result .general kind? undefined r) (invalid : undefined.kind = .invalidOperation)
    {letter : Char} (first : undefined.message.toList.head? = some letter)
    (other : letter ∉ ['d', 'm', 'p', 'c', 'r']) : Conforms kind? undefined.message r := by
  cases kind? with
  | some kind =>
      have h : Yields (fun v => v.Operand ∧ v.tag = .ok kind) Operands.general.fails r := h
      refine ⟨(h.mono fun v _ hv => ⟨hv.1, kind, rfl, hv.2⟩).weaken ?_, ?_, nofun⟩
      · rintro _ ⟨f, rfl, hf⟩
        exact ⟨f, rfl, Fault.kind_ofOperands hf⟩
      · rintro ⟨f, eq, message⟩
        obtain ⟨_, ⟨⟩, hf⟩ := h.of_error eq
        obtain ⟨c, hc, starts⟩ := Fault.message_ofOperands hf
        rw [message, first] at starts
        exact absurd (Option.some.inj starts ▸ hc) other
  | none =>
      have h : r = .error (.fault undefined) := h
      subst h
      exact ⟨.error ⟨undefined, rfl, invalid⟩, fun _ => rfl, fun _ => ⟨undefined, rfl, rfl⟩⟩

/-- The operators follow the table on all operands. -/
theorem operators_conform (op : String) {a b : Value} (ha : a.Operand) (hb : b.Operand) :
    ∃ l r, a.tag = .ok l ∧ b.tag = .ok r ∧
      Conforms (row? op l r) s!"operator {op} is not defined for {l.text} and {r.text}"
        (binary (.text op) a b) ∧
      Conforms (unaryRow? op l) s!"unary operator {op} is not defined for {l.text}"
        (unary (.text op) a) := by
  obtain ⟨l, hl⟩ : ∃ t, a.tag = .ok t := by cases ha <;> exact ⟨_, rfl⟩
  obtain ⟨r, hr⟩ : ∃ t, b.tag = .ok t := by cases hb <;> exact ⟨_, rfl⟩
  refine ⟨l, r, hl, hr, ?_, ?_⟩
  · have first : (Fault.noBinary (.text op) l r).message.toList.head? = some 'o' :=
      Fault.head?_append (Fault.head?_append (Fault.head?_append (Fault.head?_append
        (Fault.head?_append rfl _) _) _) _) _
    exact (binary_result (K := .general) op ha hb hl hr).conforms rfl first (by simp)
  · have first : (Fault.noUnary (.text op) l).message.toList.head? = some 'u' :=
      Fault.head?_append (Fault.head?_append (Fault.head?_append rfl _) _) _
    exact (unary_result (K := .general) op ha hl).conforms rfl first (by simp)

/-- An array that is repeated, and cannot be negated. -/
theorem operators_conform_repeated : ∃ a b : Value,
    a = .array #[.pitch (.text "Bb3")] ∧ b = .int 4 ∧ a.Operand ∧ b.Operand ∧
    ∃ l r, a.tag = .ok l ∧ b.tag = .ok r ∧
      Conforms (row? "*" l r) s!"operator * is not defined for {l.text} and {r.text}"
        (binary (.text "*") a b) ∧
      Conforms (unaryRow? "*" l) s!"unary operator * is not defined for {l.text}"
        (unary (.text "*") a) := by
  have named : Pitch.semitone "Bb3" = .ok 46 := by rfl
  have items : (Value.array #[.pitch (.text "Bb3")]).Operand :=
    .array (by decide) (by decide) (by simpa using .pitch named)
  have count : (Value.int 4).Operand := .int (by decide)
  exact ⟨_, _, rfl, rfl, items, count, operators_conform "*" items count⟩

end Operator

end Cadence
