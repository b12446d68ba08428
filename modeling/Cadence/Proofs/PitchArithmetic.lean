/-
  Arithmetic on pitches.

  A pitch and a 64-bit integer are put together by way of the pitch's semitone, over all whole
  numbers: what is wrapped on the way has no effect on the result (`pitchInt_sounds`,
  `intPitch_sounds`). A result that is the semitone of a pitch gives that pitch in its sharp
  spelling, and any other result is a fault (`Sounds`). So all that an operator sees of a pitch is
  its semitone (`pitch_operators`).
-/
import Cadence.Proofs.Operators
import Cadence.Proofs.WrappedArithmetic

namespace Cadence

namespace Pitch

/-! ## Sharp names -/

/-- A natural or a sharp, and an octave. -/
def Sharp (name : String) : Prop := ∃ step ∈ steps, ∃ octave < 10, name = step ++ toString octave

theorem nameAt_eq (octave : Nat) {i : Nat} (inside : i < steps.length) :
    nameAt octave i = steps[i] ++ toString octave := by
  rw [nameAt, List.getD_eq_getElem?_getD, List.getElem?_eq_getElem inside, Option.getD_some]

/-- The names that are made for the semitones are the sharp ones. -/
theorem sharp_iff {name : String} :
    Sharp name ↔ ∃ k < 120, name = nameAt (k / 12) (k % 12) := by
  constructor
  · rintro ⟨step, listed, octave, bound, rfl⟩
    obtain ⟨i, inside, rfl⟩ := List.getElem_of_mem listed
    have twelve : i < 12 := inside
    have quotient : (12 * octave + i) / 12 = octave := by omega
    have remainder : (12 * octave + i) % 12 = i := by omega
    refine ⟨12 * octave + i, by omega, ?_⟩
    rw [quotient, remainder, nameAt_eq octave inside]
  · rintro ⟨k, bound, rfl⟩
    have inside : k % 12 < steps.length := Nat.mod_lt k (by decide)
    exact ⟨steps[k % 12], List.getElem_mem inside, k / 12, by omega, nameAt_eq _ inside⟩

/-- The name is the sharp spelling of the semitone. -/
def Spells (name : String) (n : Int) : Prop := Sharp name ∧ semitone name = .ok n

/-- A semitone has one sharp spelling. -/
theorem spells_iff {k : Nat} (bound : k < 120) (name : String) :
    Spells name k ↔ name = nameAt (k / 12) (k % 12) := by
  constructor
  · rintro ⟨sharp, named⟩
    obtain ⟨j, inside, rfl⟩ := sharp_iff.1 sharp
    rw [semitone_nameAt inside] at named
    have same : j = k := Int.ofNat.inj (Except.ok.inj named)
    rw [same]
  · rintro rfl
    exact ⟨sharp_iff.2 ⟨k, bound, rfl⟩, semitone_nameAt bound⟩

end Pitch

namespace Operator

open Integer Pitch

/-! ## Results -/

/-- The pitch at a number: the one that is spelled with sharps, if the number is the semitone of a
    pitch, and an invalid operation if it is not or if there is no number at all. -/
inductive Sounds : Option Int → Except Failure Value → Prop
  | pitch {r : Int} {name : String} (range : 0 ≤ r ∧ r ≤ 119)
      (spelled : ∀ other, Spells other r ↔ other = name) :
      Sounds (some r) (.ok (.pitch (.text name)))
  | outside {r : Int} {f : Fault} (range : ¬ (0 ≤ r ∧ r ≤ 119))
      (kind : f.kind = .invalidOperation) : Sounds (some r) (.error (.fault f))
  | undefined {f : Fault} (kind : f.kind = .invalidOperation) : Sounds none (.error (.fault f))

theorem pitchAt_sounds {r : Int} (writable : Writable r) : Sounds (some r) (pitchAt (.ok r)) := by
  show Sounds (some r) (ofSemitone r >>= fun name => .ok (.pitch (.text name)))
  unfold ofSemitone maxSemitone
  by_cases range : 0 ≤ r ∧ r ≤ 119
  · rw [if_neg (by omega)]
    refine .pitch range fun other => ?_
    have same : (r.toNat : Int) = r := Int.toNat_of_nonneg range.1
    rw [← spells_iff (by omega), same]
  · have fault : outOfRange r = .fault (.pitchOutOfRange r) := if_pos writable
    rw [if_pos (by omega), fault]
    exact .outside range rfl

/-- The arithmetic operators over whole numbers, where nothing is wrapped. There is no result for a
    divisor that is zero. -/
def wholeResults : List (String × (Int → Int → Option Int)) :=
  [("+", fun a b => some (a + b)), ("-", fun a b => some (a - b)), ("*", fun a b => some (a * b)),
   ("/", fun a b => if b = 0 then none else some (a.tdiv b)),
   ("%", fun a b => if b = 0 then none else some (a.tmod b))]

variable {p : String} {a b s n : Int}

theorem div_sounds (ha : InRange a) (inside : ¬ (a = -0x8000000000000000 ∧ b = -1)) :
    Sounds (if b = 0 then none else some (a.tdiv b)) (pitchAt (Integer.div a b)) := by
  by_cases zero : b = 0
  · rw [if_pos zero, Integer.div, if_pos zero]
    exact .undefined rfl
  · rw [if_neg zero, div_eq zero ha inside]
    exact pitchAt_sounds (writable_of_inRange (tdiv_inRange ha inside))

theorem mod_sounds (ha : InRange a) :
    Sounds (if b = 0 then none else some (a.tmod b)) (pitchAt (Integer.mod a b)) := by
  by_cases zero : b = 0
  · rw [if_pos zero, Integer.mod, if_pos zero]
    exact .undefined rfl
  · rw [if_neg zero, mod_eq zero ha]
    exact pitchAt_sounds (writable_of_inRange (tmod_inRange ha))

/-- An operation on the semitone of a name. -/
theorem Sounds.of_named {f : Int → Except Failure Int} {r : Option Int}
    (named : semitone p = .ok s) (h : Sounds r (pitchAt (f s))) :
    Sounds r (pitchAt (semitone p >>= f)) := by
  rw [named]
  exact h

/-- A pitch on the left. -/
theorem pitchInt_sounds (named : semitone p = .ok s) (range : InRange n) :
    ∀ row ∈ wholeResults,
      Sounds (row.2 s n) (binary (.text row.1) (.pitch (.text p)) (.int n)) := by
  have semitones : 0 ≤ s ∧ s ≤ 119 := (semitone_eq_ok named).2
  have small : InRange s := inRange_iff.2 (by omega)
  have bound := natAbs_le_of_inRange range
  have arithmetic (op : Arithmetic) : Sounds (some (op.onInts s n))
      (pitchAt ((semitone p).map fun s => op.onInts s n)) := by
    rw [named]
    exact pitchAt_sounds (writable_onInts op (by omega) bound (.inl (by omega)))
  simp only [wholeResults, List.forall_mem_cons]
  exact ⟨arithmetic .add, arithmetic .sub, arithmetic .mul,
    .of_named named (div_sounds small (by omega)), .of_named named (mod_sounds small),
    List.forall_mem_nil _⟩

/-- A pitch on the right. There is no product. -/
theorem intPitch_sounds (named : semitone p = .ok s) (range : InRange n) :
    ∀ row ∈ wholeResults, row.1 ≠ "*" →
      Sounds (row.2 n s) (binary (.text row.1) (.int n) (.pitch (.text p))) := by
  have semitones : 0 ≤ s ∧ s ≤ 119 := (semitone_eq_ok named).2
  have bound := natAbs_le_of_inRange range
  have arithmetic (op : Arithmetic) : Sounds (some (op.onInts n s))
      (pitchAt ((semitone p).map fun s => op.onInts n s)) := by
    rw [named]
    exact pitchAt_sounds (writable_onInts op bound (by omega) (.inr (by omega)))
  simp only [wholeResults, List.forall_mem_cons]
  exact ⟨fun _ => arithmetic .add, fun _ => arithmetic .sub, fun product => absurd rfl product,
    fun _ => .of_named named (div_sounds range (by omega)),
    fun _ => .of_named named (mod_sounds range), List.forall_mem_nil _⟩

/-! ## Comparisons -/

/-- The comparisons of whole numbers. -/
def comparisons : List (String × (Int → Int → Bool)) :=
  [("==", fun a b => decide (a = b)), ("!=", fun a b => decide (a ≠ b)),
   ("<", fun a b => decide (a < b)), (">", fun a b => decide (a > b)),
   ("<=", fun a b => decide (a ≤ b)), (">=", fun a b => decide (a ≥ b))]

/-- A comparison is decided by the order of the numbers. -/
theorem Comparison.onInts_eq {op : Comparison} {a b : Int} {P : Prop} [Decidable P]
    (Q : Ordering → Prop) [DecidablePred Q] (ordered : Q (compare a b) ↔ P)
    (decided : ∀ o, op.holds (some o) = decide (Q o)) : op.onInts a b = decide P :=
  (decided _).trans (decide_eq_decide.2 ordered)

/-- Each of them is one of the operators. -/
theorem comparisons_onInts : ∀ row ∈ comparisons, ∃ op : Comparison,
    Binary.ofText? row.1 = some (.comparison op) ∧ ∀ a b, op.onInts a b = row.2 a b := by
  simp only [comparisons, List.forall_mem_cons]
  refine ⟨⟨.eq, rfl, fun a b => Comparison.onInts_eq (· = .eq) compare_eq_iff_eq ?_⟩,
    ⟨.ne, rfl, fun a b => Comparison.onInts_eq (· ≠ .eq) compare_eq_iff_eq.not ?_⟩,
    ⟨.lt, rfl, fun a b => Comparison.onInts_eq (· = .lt) compare_lt_iff_lt ?_⟩,
    ⟨.gt, rfl, fun a b => Comparison.onInts_eq (· = .gt) compare_gt_iff_gt ?_⟩,
    ⟨.le, rfl, fun a b => Comparison.onInts_eq (· ≠ .gt) compare_le_iff_le ?_⟩,
    ⟨.ge, rfl, fun a b => Comparison.onInts_eq (· ≠ .lt) compare_ge_iff_ge ?_⟩,
    List.forall_mem_nil _⟩
  all_goals
    intro o
    cases o <;> rfl

theorem binary_eq {op : String} {o : Binary} {x y : Value} {l r : Tag}
    {result : Except Failure Value} (known : Binary.ofText? op = some o) (left : x.tag = .ok l)
    (right : y.tag = .ok r) (defined : o.apply? x y = some result) :
    binary (.text op) x y = result := by
  rw [binary_text op left right, known, Option.bind_some, defined, Option.getD_some]

/-- Pitches are compared by their semitones, with one another and with integers of any size. -/
theorem comparisons_semitones (named : semitone p = .ok s) :
    ∀ row ∈ comparisons,
      (∀ n, binary (.text row.1) (.pitch (.text p)) (.int n) = .ok (.bool (row.2 s n)) ∧
        binary (.text row.1) (.int n) (.pitch (.text p)) = .ok (.bool (row.2 n s))) ∧
      ∀ q t, semitone q = .ok t →
        binary (.text row.1) (.pitch (.text p)) (.pitch (.text q)) = .ok (.bool (row.2 s t)) := by
  intro row listed
  obtain ⟨op, known, onInts⟩ := comparisons_onInts row listed
  refine ⟨fun n => ⟨binary_eq known rfl rfl ?_, binary_eq known rfl rfl ?_⟩, fun q t named' =>
    binary_eq known rfl rfl ?_⟩
  · show some ((semitone p).map fun s => Value.bool (op.onInts s n)) = _
    rw [named, ← onInts]
    rfl
  · show some ((semitone p).map fun s => Value.bool (op.onInts n s)) = _
    rw [named, ← onInts]
    rfl
  · show some (semitone p >>= fun s => semitone q >>= fun t => .ok (Value.bool (op.onInts s t))) = _
    rw [named, named', ← onInts]
    rfl

/-! ## Spellings -/

/-- Operators see no more of a pitch than its semitone. -/
theorem apply?_congr {x y : Json} (same : semitoneOf x = semitoneOf y) (op : Binary) (v : Value) :
    op.apply? (.pitch x) v = op.apply? (.pitch y) v ∧
      op.apply? v (.pitch x) = op.apply? v (.pitch y) := by
  cases v with
  | int n =>
      show op.pitchInt (semitoneOf x) n = _ ∧ op.intPitch n (semitoneOf x) = _
      rw [same]
      exact ⟨rfl, rfl⟩
  | pitch q =>
      show op.pitches (semitoneOf x) (semitoneOf q) = _ ∧
        op.pitches (semitoneOf q) (semitoneOf x) = _
      rw [same]
      exact ⟨rfl, rfl⟩
  | _ => exact ⟨rfl, rfl⟩

theorem binary_congr {x y : Json} (same : semitoneOf x = semitoneOf y) (op : Json) (v : Value) :
    binary op (.pitch x) v = binary op (.pitch y) v ∧
      binary op v (.pitch x) = binary op v (.pitch y) := by
  have left (o : Binary) := (apply?_congr same o v).1
  have right (o : Binary) := (apply?_congr same o v).2
  exact ⟨by simp only [binary, left, Value.tag], by simp only [binary, right, Value.tag]⟩

theorem unary_congr (x y op : Json) : unary op (.pitch x) = unary op (.pitch y) := by
  have undefined (o : Unary) : o.apply? (.pitch x) = o.apply? (.pitch y) := by cases o <;> rfl
  simp only [unary, undefined, Value.tag]

/-- Let `p` be a name that has a semitone. The arithmetic operators between the pitch `p` and a
    64-bit integer, in either order where both are defined, give the pitch at the exact result, and
    an invalid operation if there is none. Comparisons compare the semitone. Any other name of the
    semitone could stand in the place of `p` in every operator, whatever the other operand. -/
theorem pitch_operators (named : semitone p = .ok s) (range : InRange n) :
    (0 ≤ s ∧ s ≤ 119) ∧
    (∀ row ∈ wholeResults,
      Sounds (row.2 s n) (binary (.text row.1) (.pitch (.text p)) (.int n)) ∧
      (row.1 ≠ "*" → Sounds (row.2 n s) (binary (.text row.1) (.int n) (.pitch (.text p))))) ∧
    (∀ row ∈ comparisons,
      binary (.text row.1) (.pitch (.text p)) (.int n) = .ok (.bool (row.2 s n)) ∧
      binary (.text row.1) (.int n) (.pitch (.text p)) = .ok (.bool (row.2 n s)) ∧
      ∀ q t, semitone q = .ok t →
        binary (.text row.1) (.pitch (.text p)) (.pitch (.text q)) = .ok (.bool (row.2 s t))) ∧
    ∀ p', semitone p' = .ok s → ∀ op v,
      binary op (.pitch (.text p')) v = binary op (.pitch (.text p)) v ∧
      binary op v (.pitch (.text p')) = binary op v (.pitch (.text p)) ∧
      unary op (.pitch (.text p')) = unary op (.pitch (.text p)) := by
  refine ⟨(semitone_eq_ok named).2, fun row listed => ?_, fun row listed => ?_,
    fun p' named' op v => ?_⟩
  · exact ⟨pitchInt_sounds named range row listed, intPitch_sounds named range row listed⟩
  · have compared := comparisons_semitones named row listed
    exact ⟨(compared.1 n).1, (compared.1 n).2, compared.2⟩
  · have same : semitoneOf (.text p') = semitoneOf (.text p) := named'.trans named.symm
    have both := binary_congr same op v
    exact ⟨both.1, both.2, unary_congr _ _ op⟩

/-- A flat and its sharp, and the integer of which no product is a pitch. -/
theorem pitch_operators_flat :
    semitone "Bb3" = .ok 46 ∧ semitone "A#3" = .ok 46 ∧ InRange (-0x8000000000000000) ∧
    Sounds (some (46 * -0x8000000000000000))
      (binary (.text "*") (.pitch (.text "Bb3")) (.int (-0x8000000000000000))) ∧
    Sounds (some 0) (binary (.text "/") (.pitch (.text "Bb3")) (.int (-0x8000000000000000))) ∧
    binary (.text "==") (.pitch (.text "Bb3")) (.pitch (.text "A#3")) = .ok (.bool true) ∧
    ∀ op v, binary op (.pitch (.text "A#3")) v = binary op (.pitch (.text "Bb3")) v := by
  have flat : semitone "Bb3" = .ok 46 := by rfl
  have sharp : semitone "A#3" = .ok 46 := by rfl
  have range : InRange (-0x8000000000000000) := by decide
  obtain ⟨-, results, compared, spellings⟩ := pitch_operators flat range
  have product := (results ("*", fun a b => some (a * b)) (.tail _ (.tail _ (.head _)))).1
  have quotient := (results ("/", fun a b => if b = 0 then none else some (a.tdiv b))
    (.tail _ (.tail _ (.tail _ (.head _))))).1
  have equal := (compared ("==", fun a b => decide (a = b)) (.head _)).2.2 "A#3" 46 sharp
  exact ⟨flat, sharp, range, product, quotient, equal, fun op v => (spellings "A#3" sharp op v).1⟩

end Operator

end Cadence
