/-
  The names of pitches.

  A pitch is named by a spelling of its step and one digit for the octave (`Named`). What is read as
  a pitch is more than that, for the digit may be of any script, and a digit with no decimal value
  is not rejected as other names are. Every name that does not end in this way is read as the
  grammar says (`pitch_names_conform`).
-/
import Cadence.Proofs.PitchArithmetic
import Cadence.Proofs.TrackFormat

namespace Cadence

namespace Pitch

/-! ## Spellings -/

/-- The spellings of the steps of an octave: naturals, sharps, and the five flats. -/
def spellings : List (String × Nat) :=
  [("C", 0), ("C#", 1), ("Db", 1), ("D", 2), ("D#", 3), ("Eb", 3), ("E", 4), ("F", 5), ("F#", 6),
   ("Gb", 6), ("G", 7), ("G#", 8), ("Ab", 8), ("A", 9), ("A#", 10), ("Bb", 10), ("B", 11)]

theorem step?_eq_some {s : String} {k : Nat} : step? s = some k ↔ (s, k) ∈ spellings := by
  constructor
  · intro h
    have table : ∀ s ∈ steps ++ flats.map Prod.fst,
        (step? s).all (fun k => decide ((s, k) ∈ spellings)) = true := by decide
    have listed := table s (mem_of_step? h)
    rw [h] at listed
    exact of_decide_eq_true listed
  · have table : ∀ p ∈ spellings, step? p.1 = some p.2 := by decide
    exact table (s, k)

/-- A spelling of the step with one more character. -/
def Spelled (s : String) (step : Nat) (c : Char) : Prop :=
  ∃ spelling, (spelling, step) ∈ spellings ∧ s = spelling.push c

theorem Spelled.getLast? {s : String} {step : Nat} {c : Char} (h : Spelled s step c) :
    s.toList.getLast? = some c := by
  obtain ⟨spelling, -, rfl⟩ := h
  rw [String.toList_push, List.getLast?_concat]

/-- A name of the grammar: a spelling of the step, and the octave. -/
def Named (s : String) (step octave : Nat) : Prop :=
  octave < 10 ∧ ∃ spelling, (spelling, step) ∈ spellings ∧ s = spelling ++ toString octave

variable {s : String} {step octave : Nat} {c : Char}

theorem semitone_spelled (h : Spelled s step c) (digit : Text.isDigit c = true) :
    semitone s = (Pitch.octave c).map fun n => 12 * (n : Int) + step := by
  obtain ⟨spelling, listed, rfl⟩ := h
  have found := step?_eq_some.2 listed
  have nonempty : ∀ p ∈ spellings, p.1.toList.reverse ≠ [] := by decide
  obtain ⟨first, rest, shape⟩ := List.exists_cons_of_ne_nil (nonempty _ listed)
  have reversed : (spelling.push c).toList.reverse = c :: first :: rest := by
    rw [String.toList_push, List.reverse_append, ← shape]
    rfl
  have whole : String.ofList (first :: rest).reverse = spelling := by
    rw [← shape, List.reverse_reverse, String.ofList_toList]
  unfold semitone
  rw [reversed]
  dsimp only
  rw [if_pos digit, whole, found]

/-- What is no spelling with a digit is rejected. -/
theorem semitone_rejected (h : ∀ step c, Spelled s step c → Text.isDigit c = false) :
    semitone s = .error (.fault (.invalidPitch (Text.quoted s))) := by
  unfold semitone
  dsimp only
  split
  · next last first rest shape =>
      split
      · next digit =>
          split
          · next step found =>
              have spelled : s = (String.ofList (first :: rest).reverse).push last := by
                rw [← String.toList_inj, String.toList_push, String.toList_ofList,
                  ← List.reverse_cons, ← shape, List.reverse_reverse]
              have none := h step last ⟨_, step?_eq_some.1 found, spelled⟩
              rw [digit] at none
              cases none
          · rfl
      · rfl
  · rfl

/-! ## Octaves -/

/-- The digits that are written for numbers. -/
theorem digitChar_spec (small : octave < 10) :
    toString octave = String.singleton (Nat.digitChar octave) ∧
      Text.isDigit (Nat.digitChar octave) = true ∧
      Text.isAsciiDigit (Nat.digitChar octave) = true ∧
      Pitch.octave (Nat.digitChar octave) = .ok octave := by
  have table : ∀ n < 10, toString n = String.singleton (Nat.digitChar n) ∧
      Text.isDigit (Nat.digitChar n) = true ∧ Text.isAsciiDigit (Nat.digitChar n) = true ∧
      Text.decimalValue? (Nat.digitChar n) = some n := by decide
  obtain ⟨written, digit, ascii, value⟩ := table octave small
  exact ⟨written, digit, ascii, by rw [Pitch.octave, value]⟩

theorem exists_digitChar (h : Text.isAsciiDigit c = true) : ∃ n < 10, c = Nat.digitChar n := by
  have range : 48 ≤ c.toNat ∧ c.toNat ≤ 57 := by
    rw [Text.isAsciiDigit, Bool.and_eq_true, decide_eq_true_eq, decide_eq_true_eq] at h
    exact h
  refine ⟨c.toNat - 48, by omega, Char.toNat_inj.1 ?_⟩
  rw [Nat.toNat_digitChar_of_lt_ten (by omega)]
  omega

theorem named_iff : Named s step octave ↔ octave < 10 ∧ Spelled s step (Nat.digitChar octave) := by
  refine and_congr_right fun small => exists_congr fun spelling => and_congr_right fun _ => ?_
  rw [(digitChar_spec small).1, String.append_singleton]

theorem Named.semitone_eq (h : Named s step octave) : semitone s = .ok (12 * octave + step) := by
  obtain ⟨small, spelled⟩ := named_iff.1 h
  obtain ⟨-, digit, -, value⟩ := digitChar_spec small
  rw [semitone_spelled spelled digit, value]
  rfl

/-- A spelling with an ASCII digit is a name, and one with another character is none. -/
theorem Spelled.named_iff (h : Spelled s step c) :
    (∃ step octave, Named s step octave) ↔ Text.isAsciiDigit c = true := by
  constructor
  · rintro ⟨step', octave, named⟩
    obtain ⟨small, spelled⟩ := Pitch.named_iff.1 named
    have last : some c = some (Nat.digitChar octave) := h.getLast?.symm.trans spelled.getLast?
    rw [Option.some.inj last]
    exact (digitChar_spec small).2.2.1
  · intro ascii
    obtain ⟨octave, small, rfl⟩ := exists_digitChar ascii
    exact ⟨step, octave, Pitch.named_iff.2 ⟨small, h⟩⟩

/-! ## Reading names -/

/-- The literals with the name of a pitch, which may be marked as one already. -/
def literals (s : String) : List Node :=
  [.literal (.pitch (.text s)) (.text "pitch"), .literal (.plain (.text s)) (.text "pitch")]

theorem asPitch_text (s : String) :
    (Value.foreign (.text s)).asPitch = (semitone s).map fun _ => .pitch (.text s) := by
  have named : (Value.foreign (.text s)).semitoneOfName = semitone s := rfl
  unfold Value.asPitch
  dsimp only
  rw [named]
  cases semitone s <;> rfl

/-- A literal keeps the name, if it has a semitone. -/
theorem literals_find {node : Node} (listed : node ∈ literals s) {ctx : Context} {level : Nat}
    (admitted : ¬ ctx.Bars level) (fuel : Nat) (env : Environment) :
    (ctx.evaluate (fuel + 1) level node env).Finds env
      ((semitone s).map fun _ => .pitch (.text s)) := by
  refine Context.evaluate_gives (fun deep => absurd deep admitted) fun _ => ?_
  simp only [literals, List.mem_cons, List.not_mem_nil, or_false] at listed
  rcases listed with rfl | rfl
  · exact Act.lift_finds _
  · rw [← asPitch_text]
    exact Act.lift_finds _

/-- The name is read as the grammar says. -/
structure Conforms (s : String) : Prop where
  accepted : (∃ n, semitone s = .ok n ∧ 0 ≤ n ∧ n ≤ 119) ↔ ∃ step octave, Named s step octave
  rejected : (¬ ∃ step octave, Named s step octave) →
    ∃ f : Fault, semitone s = .error (.fault f) ∧ f.kind = .invalidOperation
  /-- The pitch at its semitone is the sharp spelling of the step, in the same octave. -/
  respelled : ∀ step octave, Named s step octave → ∃ sharp, steps[step]? = some sharp ∧
    (semitone s >>= ofSemitone) = .ok (sharp ++ toString octave)
  /-- Literals keep the name as it is. -/
  kept : ∀ step octave, Named s step octave → ∀ node ∈ literals s, ∀ (ctx : Context) (level : Nat),
    ¬ ctx.Bars level → ∀ fuel env,
      (ctx.evaluate (fuel + 1) level node env).Finds env (.ok (.pitch (.text s)))

theorem Named.respelled (h : Named s step octave) : ∃ sharp, steps[step]? = some sharp ∧
    (semitone s >>= ofSemitone) = .ok (sharp ++ toString octave) := by
  have semitones := h.semitone_eq
  obtain ⟨small, spelling, listed, -⟩ := h
  have inside : step < steps.length := step?_lt (step?_eq_some.2 listed)
  refine ⟨steps[step], List.getElem?_eq_getElem inside, ?_⟩
  rw [semitones, ← nameAt_eq octave inside]
  have twelve : step < 12 := inside
  show ofSemitone (12 * octave + step) = _
  have number : (12 * (octave : Int) + step).toNat = 12 * octave + step := by omega
  have quotient : (12 * octave + step) / 12 = octave := by omega
  have remainder : (12 * octave + step) % 12 = step := by omega
  rw [ofSemitone, if_neg (by unfold maxSemitone; omega), number, quotient, remainder]

theorem Named.conforms (h : Named s step octave) : Conforms s where
  accepted := by
    refine ⟨fun _ => ⟨step, octave, h⟩, fun _ => ⟨_, h.semitone_eq, ?_⟩⟩
    exact (semitone_eq_ok h.semitone_eq).2
  rejected none := absurd ⟨step, octave, h⟩ none
  respelled _ _ h := h.respelled
  kept _ _ h node listed ctx level admitted fuel env := by
    have found := literals_find listed admitted fuel env
    rw [h.semitone_eq] at found
    exact found

theorem conforms_of_rejected {f : Fault} (none : ¬ ∃ step octave, Named s step octave)
    (fault : semitone s = .error (.fault f)) (kind : f.kind = .invalidOperation) : Conforms s where
  accepted := by
    refine ⟨fun ⟨n, named, _⟩ => ?_, fun named => absurd named none⟩
    rw [fault] at named
    cases named
  rejected _ := ⟨f, fault, kind⟩
  respelled step octave h := absurd ⟨step, octave, h⟩ none
  kept step octave h := absurd ⟨step, octave, h⟩ none

/-- A name is read as the grammar says, unless it is a spelling of a step with a digit that is no
    ASCII digit. Such a digit is taken by its decimal value, and if it has none, that is no fault of
    the name but a defect. -/
theorem pitch_names_conform (s : String) :
    (Conforms s ↔ ∀ step c, Spelled s step c → Text.isDigit c = true →
      Text.isAsciiDigit c = true) ∧
    ∀ step c, Spelled s step c → Text.isDigit c = true → Text.isAsciiDigit c = false →
      (∀ octave, Text.decimalValue? c = some octave → semitone s = .ok (12 * octave + step)) ∧
      (Text.decimalValue? c = none → semitone s = .error (.defect (.notInt c.toString))) := by
  have foreign {step : Nat} {c : Char} (spelled : Spelled s step c)
      (digit : Text.isDigit c = true) :
      (∀ octave, Text.decimalValue? c = some octave → semitone s = .ok (12 * octave + step)) ∧
      (Text.decimalValue? c = none → semitone s = .error (.defect (.notInt c.toString))) := by
    rw [semitone_spelled spelled digit, Pitch.octave]
    exact ⟨fun octave value => by rw [value]; rfl, fun none => by rw [none]; rfl⟩
  refine ⟨⟨fun conforms step c spelled digit => ?_, fun ascii => ?_⟩,
    fun step c spelled digit _ => foreign spelled digit⟩
  · by_contra other
    -- the grammar rejects the name with a fault, but it is read, or fails otherwise
    obtain ⟨f, fault, -⟩ := conforms.rejected (mt spelled.named_iff.1 other)
    obtain ⟨decimal, loose⟩ := foreign spelled digit
    cases value : Text.decimalValue? c with
    | some octave => rw [decimal octave value] at fault; cases fault
    | none => rw [loose value] at fault; cases fault
  · by_cases named : ∃ step octave, Named s step octave
    · obtain ⟨step, octave, named⟩ := named
      exact named.conforms
    · refine conforms_of_rejected named (semitone_rejected fun step c spelled => ?_) rfl
      refine eq_false_of_ne_true fun digit => ?_
      exact named (spelled.named_iff.2 (ascii step c spelled digit))

/-- A superscript and an Arabic digit in the place of the octave. -/
theorem pitch_names_foreign :
    semitone "C²" = .error (.defect (.notInt "²")) ∧ ¬ Conforms "C²" ∧
    semitone "Bb٣" = .ok 46 ∧ ¬ Conforms "Bb٣" ∧ Conforms "Bb3" ∧ Conforms "H3" := by
  have superscript : Spelled "C²" 0 '²' := ⟨"C", by decide, rfl⟩
  have arabic : Spelled "Bb٣" 10 '٣' := ⟨"Bb", by decide, rfl⟩
  obtain ⟨conforms, foreign⟩ := pitch_names_conform "C²"
  obtain ⟨conforms', foreign'⟩ := pitch_names_conform "Bb٣"
  refine ⟨(foreign 0 _ superscript (by decide) (by decide)).2 (by decide), fun h => ?_,
    (foreign' 10 _ arabic (by decide) (by decide)).1 3 (by decide), fun h => ?_, ?_, ?_⟩
  · exact absurd (conforms.1 h 0 _ superscript (by decide)) (by decide)
  · exact absurd (conforms'.1 h 10 _ arabic (by decide)) (by decide)
  · refine (pitch_names_conform "Bb3").1.2 fun step c spelled _ => ?_
    cases spelled.getLast?
    rfl
  · refine (pitch_names_conform "H3").1.2 fun step c spelled _ => ?_
    cases spelled.getLast?
    rfl

end Pitch

end Cadence
