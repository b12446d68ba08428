/-
  A track file can be read in one way only.

  The text of a value ends where the next character can belong to no amplitude, and with such a
  character behind it, it belongs to no other value (`serialized_unique`): the induction is on the
  nesting of arrays, and the second character tells an array from a sound. From that the lines of a
  file can be told apart, and with them the mixdowns that it was made from (`recorded_inj`).
-/
import Cadence.Proofs.DoubleText
import Cadence.Proofs.Numbers
import Cadence.Proofs.TrackFile

namespace Cadence

/-! ## Texts with a separator -/

/-- Characters of one kind up to one of another kind can be taken from a text in one way only. -/
theorem append_unique {α : Type} {p : α → Prop} {x y r s : List α} (hx : ∀ c ∈ x, p c)
    (hy : ∀ c ∈ y, p c) (hr : ∀ c ∈ r.head?, ¬ p c) (hs : ∀ c ∈ s.head?, ¬ p c)
    (h : x ++ r = y ++ s) : x = y ∧ r = s := by
  induction x generalizing y with
  | nil =>
      cases y with
      | nil => exact ⟨rfl, h⟩
      | cons d y =>
          rw [show r = d :: (y ++ s) from h] at hr
          exact absurd (hy d (.head _)) (hr d rfl)
  | cons c x ih =>
      cases y with
      | nil =>
          rw [← show c :: (x ++ r) = s from h] at hs
          exact absurd (hx c (.head _)) (hs c rfl)
      | cons d y =>
          obtain ⟨rfl, tails⟩ := List.cons.inj h
          obtain ⟨rfl, rests⟩ :=
            ih (fun e he => hx e (.tail _ he)) (fun e he => hy e (.tail _ he)) tails
          exact ⟨rfl, rests⟩

/-- The texts behind the first one, each behind a separator. -/
def tails (separator : String) (texts : List String) : List Char :=
  texts.flatMap fun t => separator.toList ++ t.toList

theorem toList_intercalate_cons (separator t : String) (ts : List String) :
    (String.intercalate separator (t :: ts)).toList = t.toList ++ tails separator ts := by
  induction ts generalizing t with
  | nil => simp [tails]
  | cons u ts ih =>
      rw [String.intercalate_cons_cons, String.toList_append, String.toList_append, ih]
      simp [tails]

/-! ## Integers -/

/-- The characters of an integer. -/
def IsSigned (c : Char) : Prop := Text.isAsciiDigit c = true ∨ c = '-'

instance : DecidablePred IsSigned := fun _ => inferInstanceAs (Decidable (_ ∨ _))

theorem toList_toString (n : Int) :
    (toString n).toList = (if n < 0 then ['-'] else []) ++ Nat.toDigits 10 n.natAbs := by
  have digits (k : Nat) : (toString k).toList = Nat.toDigits 10 k := by
    rw [Nat.toString_eq_ofList_toDigits, String.toList_ofList]
  cases n with
  | ofNat k =>
      rw [if_neg (by simp)]
      exact digits k
  | negSucc k =>
      rw [if_pos (Int.negSucc_lt_zero k), ← digits]
      exact String.toList_append

theorem toString_chars (n : Int) : ∀ c ∈ (toString n).toList, IsSigned c := by
  rw [toList_toString, List.forall_mem_append]
  refine ⟨?_, fun c hc => .inl (Double.isAsciiDigit_of_mem_toDigits hc)⟩
  split
  · exact List.forall_mem_singleton.2 (.inr rfl)
  · simp

theorem toDigits_inj {m n : Nat} (h : Nat.toDigits 10 m = Nat.toDigits 10 n) : m = n := by
  rw [← Text.natOfDigits_toDigits m, h, Text.natOfDigits_toDigits]

theorem toString_inj {m n : Int} (h : toString m = toString n) : m = n := by
  have unsigned : ∀ k cs, Nat.toDigits 10 k ≠ '-' :: cs := by
    intro k cs eq
    have minus : '-' ∈ Nat.toDigits 10 k := eq ▸ .head cs
    exact absurd (Double.isAsciiDigit_of_mem_toDigits minus) (by decide)
  have lists := congrArg String.toList h
  rw [toList_toString, toList_toString] at lists
  split at lists <;> split at lists
  · have := toDigits_inj (List.cons.inj lists).2
    omega
  · exact absurd lists.symm (unsigned _ _)
  · exact absurd lists (unsigned _ _)
  · have := toDigits_inj lists
    omega

/-! ## Pitches -/

/-- The characters that separate the parts of a track file. -/
def separators : List Char := [',', ':', '[', ']', '\n']

namespace Pitch

theorem mem_of_step? {s : String} {k : Nat} (h : step? s = some k) :
    s ∈ steps ++ flats.map Prod.fst := by
  unfold step? at h
  cases flat : flats.lookup s with
  | none =>
      rw [flat] at h
      obtain ⟨bound, eq, -⟩ := List.idxOf?_eq_some_iff.1 h
      have same : steps[k] = s := eq
      exact List.mem_append_left _ (same ▸ List.getElem_mem bound)
  | some sharp =>
      obtain ⟨before, after, eq, -⟩ := List.lookup_eq_some_iff.1 flat
      refine List.mem_append_right _ ?_
      rw [eq]
      simp

/-- A name with a semitone is a step and one character, and separates nothing. -/
theorem semitone_chars {name : String} {n : Int} (h : semitone name = .ok n) :
    name.toList ≠ [] ∧ ∀ c ∈ name.toList, c ∉ separators := by
  have plain : ∀ s ∈ steps ++ flats.map Prod.fst, ∀ c ∈ s.toList, c ∉ separators := by
    have all : ((steps ++ flats.map Prod.fst).all fun s =>
        s.toList.all fun c => decide (c ∉ separators)) = true := by decide
    exact fun s hs => List.all_iff_forall_prop.1 (List.all_eq_true.1 all s hs)
  have digit : ∀ c ∈ separators, Text.decimalValue? c = none :=
    List.all_iff_forall_prop.1 (by decide)
  unfold semitone at h
  dsimp only at h
  split at h
  · next last first rest shape =>
      have spelled : name.toList = (first :: rest).reverse ++ [last] := by
        rw [← List.reverse_reverse name.toList, shape, List.reverse_cons]
      split at h
      · split at h
        · next step found =>
            have value : (Text.decimalValue? last).isSome = true := by
              unfold octave at h
              cases v : Text.decimalValue? last with
              | none => rw [v] at h; cases h
              | some k => rfl
            refine ⟨by simp [spelled], ?_⟩
            rw [spelled, List.forall_mem_append]
            constructor
            · have := plain _ (mem_of_step? found)
              rwa [String.toList_ofList] at this
            · intro c hc separator
              rw [List.mem_singleton.1 hc] at separator
              rw [digit last separator] at value
              cases value
        · cases h
      · cases h
  · cases h

theorem semitoneOf_eq_ok {name : Json} {n : Int} (h : semitoneOf name = .ok n) :
    ∃ s, name = .text s ∧ semitone s = .ok n := by
  unfold semitoneOf at h
  split at h
  · exact ⟨_, rfl, h⟩
  · split at h <;> cases h
  · split at h <;> cases h
  · cases h

end Pitch

/-! ## Sounds -/

theorem joinTexts_map_text (separator : String) (names : List String) :
    joinTexts separator (names.map .text) = .ok (String.intercalate separator names) := by
  have texts : ∀ position, joinTexts.texts position (names.map .text) = .ok names := by
    induction names with
    | nil => exact fun _ => rfl
    | cons name rest ih =>
        intro position
        rw [List.map_cons, joinTexts.texts, ih]
        rfl
  unfold joinTexts
  rw [texts]
  rfl

namespace Sound

/-- A text that may name a pitch. -/
def IsName (name : String) : Prop := name.toList ≠ [] ∧ ∀ c ∈ name.toList, c ∉ separators

/-- Every pitch has a semitone. -/
def Playable (s : Sound) : Prop := ∀ pitch ∈ s.pitches, ∃ n, Pitch.semitoneOf pitch = .ok n

theorem Playable.names {s : Sound} (h : s.Playable) :
    ∃ names : List String, s.pitches = names.map .text ∧ ∀ name ∈ names, IsName name := by
  unfold Playable at h
  generalize s.pitches = pitches at h
  induction pitches with
  | nil => exact ⟨[], rfl, by simp⟩
  | cons pitch rest ih =>
      rw [List.forall_mem_cons] at h
      obtain ⟨names, rfl, named⟩ := ih h.2
      obtain ⟨n, first⟩ := h.1
      obtain ⟨name, rfl, semitone⟩ := Pitch.semitoneOf_eq_ok first
      exact ⟨name :: names, rfl, List.forall_mem_cons.2 ⟨Pitch.semitone_chars semitone, named⟩⟩

theorem IsName.no_comma {name : String} (h : IsName name) : ∀ c ∈ name.toList, c ≠ ',' :=
  fun c hc comma => h.2 c hc (comma ▸ by decide)

theorem tails_head (names : List String) : ∀ c ∈ (tails ", " names).head?, ¬ c ≠ ',' := by
  intro c hc
  cases names with
  | nil => cases hc
  | cons _ _ => simpa [tails] using hc.symm

theorem tails_unique {names names' : List String} (h : ∀ name ∈ names, IsName name)
    (h' : ∀ name ∈ names', IsName name) (eq : tails ", " names = tails ", " names') :
    names = names' := by
  induction names generalizing names' with
  | nil =>
      cases names' with
      | nil => rfl
      | cons _ _ => simp [tails] at eq
  | cons name rest ih =>
      cases names' with
      | nil => simp [tails] at eq
      | cons name' rest' =>
          rw [List.forall_mem_cons] at h h'
          have behind : name.toList ++ tails ", " rest = name'.toList ++ tails ", " rest' := by
            simpa [tails] using eq
          obtain ⟨first, others⟩ :=
            append_unique h.1.no_comma h'.1.no_comma (tails_head _) (tails_head _) behind
          rw [String.toList_inj.1 first, ih h.2 h'.2 others]

/-- The names of pitches can be told from the text that joins them. -/
theorem names_unique {names names' : List String} (h : ∀ name ∈ names, IsName name)
    (h' : ∀ name ∈ names', IsName name)
    (eq : (String.intercalate ", " names).toList = (String.intercalate ", " names').toList) :
    names = names' := by
  cases names with
  | nil =>
      cases names' with
      | nil => rfl
      | cons name' rest' =>
          rw [toList_intercalate_cons] at eq
          exact absurd (List.append_eq_nil_iff.1 eq.symm).1 (h' name' (.head _)).1
  | cons name rest =>
      cases names' with
      | nil =>
          rw [toList_intercalate_cons] at eq
          exact absurd (List.append_eq_nil_iff.1 eq).1 (h name (.head _)).1
      | cons name' rest' =>
          rw [List.forall_mem_cons] at h h'
          rw [toList_intercalate_cons, toList_intercalate_cons] at eq
          obtain ⟨first, others⟩ :=
            append_unique h.1.no_comma h'.1.no_comma (tails_head _) (tails_head _) eq
          rw [String.toList_inj.1 first, tails_unique h.2 h'.2 others]

theorem names_chars {names : List String} (h : ∀ name ∈ names, IsName name) :
    ∀ c ∈ (String.intercalate ", " names).toList, c ≠ '[' ∧ c ≠ ']' := by
  have plain : ∀ name ∈ names, ∀ c ∈ name.toList, c ≠ '[' ∧ c ≠ ']' := fun name hn c hc =>
    ⟨fun eq => (h name hn).2 c hc (eq ▸ by decide), fun eq => (h name hn).2 c hc (eq ▸ by decide)⟩
  cases names with
  | nil => simp
  | cons name rest =>
      rw [toList_intercalate_cons, List.forall_mem_append]
      refine ⟨plain name (.head _), fun c hc => ?_⟩
      obtain ⟨other, mem, hc⟩ := List.mem_flatMap.1 hc
      rcases List.mem_append.1 hc with separator | inside
      · have comma : ∀ c ∈ ", ".toList, c ≠ '[' ∧ c ≠ ']' :=
          List.all_iff_forall_prop.1 (by decide)
        exact comma c separator
      · exact plain other (.tail _ mem) c inside

/-- The characters of a sound with the given pitches. -/
def chars (names : List String) (s : Sound) : List Char :=
  '[' :: ((String.intercalate ", " names).toList ++ ']' :: ':' ::
    ((Double.text s.duration).toList ++ ':' :: (toString s.amplitude).toList))

theorem serialized_eq {s : Sound} {names : List String} (h : s.pitches = names.map .text) :
    ∃ t, s.serialized = .ok t ∧ t.toList = s.chars names := by
  unfold serialized
  rw [h, joinTexts_map_text]
  refine ⟨_, rfl, ?_⟩
  show ("[" ++ String.intercalate ", " names ++ "]" ++
    (":" ++ Double.text s.duration ++ ":" ++ toString s.amplitude)).toList = _
  simp [chars]

theorem chars_unique {s s' : Sound} {names names' : List String} {r r' : List Char}
    (h : ∀ name ∈ names, IsName name) (h' : ∀ name ∈ names', IsName name)
    (hr : ∀ c ∈ r.head?, ¬ IsSigned c) (hr' : ∀ c ∈ r'.head?, ¬ IsSigned c)
    (eq : s.chars names ++ r = s'.chars names' ++ r') :
    names = names' ∧ s.duration = s'.duration ∧ s.amplitude = s'.amplitude ∧ r = r' := by
  have inside : ∀ {l : List String}, (∀ name ∈ l, IsName name) →
      ∀ c ∈ (String.intercalate ", " l).toList, c ≠ ']' :=
    fun named c hc => (names_chars named c hc).2
  have duration : ∀ x : Float, ∀ c ∈ (Double.text x).toList, c ≠ ':' := by
    rintro x c hc rfl
    exact Double.text_chars x _ hc (by decide)
  simp only [chars, List.cons_append, List.append_assoc, List.cons.injEq, true_and] at eq
  obtain ⟨joined, eq⟩ := append_unique (inside h) (inside h') (by simp) (by simp) eq
  simp only [List.cons.injEq, true_and] at eq
  obtain ⟨durations, eq⟩ :=
    append_unique (duration s.duration) (duration s'.duration) (by simp) (by simp) eq
  simp only [List.cons.injEq, true_and] at eq
  obtain ⟨amplitudes, eq⟩ :=
    append_unique (toString_chars s.amplitude) (toString_chars s'.amplitude) hr hr' eq
  exact ⟨names_unique h h' joined, Double.text_inj (String.toList_inj.1 durations),
    toString_inj (String.toList_inj.1 amplitudes), eq⟩

end Sound

/-! ## Values -/

namespace Value

/-- A sound, or an array that is not empty, nested down to sounds, with pitches that have
    semitones. -/
inductive Playable : Value → Prop
  | sound {s : Sound} (h : s.Playable) : Playable (.sound s)
  | array {items : List Value} (filled : items ≠ []) (each : ∀ v ∈ items, Playable v) :
      Playable (.array ⟨items⟩)

theorem Playable.items {items : List Value} (h : Playable (.array ⟨items⟩)) :
    items ≠ [] ∧ ∀ v ∈ items, v.Playable := by
  cases h with
  | array filled each => exact ⟨filled, each⟩

theorem serializedItems_cons {v : Value} {vs : List Value} {ts : List String} :
    serializedItems none (v :: vs) = .ok ts ↔ ∃ t us, v.serialized none = .ok t ∧
      serializedItems none vs = .ok us ∧ ts = t :: us := by
  rw [serializedItems]
  constructor
  · intro h
    obtain ⟨t, ht, h⟩ := bind_eq_ok.1 h
    obtain ⟨us, hu, h⟩ := bind_eq_ok.1 h
    cases h
    exact ⟨t, us, ht, hu, rfl⟩
  · rintro ⟨t, us, ht, hu, rfl⟩
    exact bind_eq_ok.2 ⟨t, ht, bind_eq_ok.2 ⟨us, hu, rfl⟩⟩

theorem serialized_array {items : List Value} {t : String} (filled : items ≠ [])
    (h : (Value.array ⟨items⟩).serialized none = .ok t) :
    ∃ v vs first ts, items = v :: vs ∧ v.serialized none = .ok first ∧
      serializedItems none vs = .ok ts ∧
      t.toList = '[' :: (first.toList ++ (tails "," ts ++ [']'])) := by
  obtain ⟨v, vs, rfl⟩ := List.exists_cons_of_ne_nil filled
  rw [serialized] at h
  obtain ⟨inside, room, h⟩ := bind_eq_ok.1 h
  cases room
  obtain ⟨texts, read, h⟩ := bind_eq_ok.1 h
  cases h
  obtain ⟨first, ts, hf, ht, rfl⟩ := serializedItems_cons.1 read
  refine ⟨v, vs, first, ts, rfl, hf, ht, ?_⟩
  rw [String.toList_append, String.toList_append, toList_intercalate_cons]
  simp

theorem serialized_head {v : Value} {t : String} (h : v.Playable) (ht : v.serialized none = .ok t) :
    ∃ rest, t.toList = '[' :: rest := by
  cases h with
  | sound h =>
      obtain ⟨names, eq, -⟩ := h.names
      obtain ⟨u, hu, chars⟩ := Sound.serialized_eq eq
      rw [serialized, hu] at ht
      cases ht
      exact ⟨_, chars⟩
  | array filled each =>
      obtain ⟨_, _, _, _, -, -, -, eq⟩ := serialized_array filled ht
      exact ⟨_, eq⟩

/-- A sound does not read like the beginning of an array. -/
theorem sound_ne_array {s : Sound} {items : List Value} {a b : String} {r r' : List Char}
    (hs : s.Playable) (hi : (Value.array ⟨items⟩).Playable) (ha : s.serialized = .ok a)
    (hb : (Value.array ⟨items⟩).serialized none = .ok b) : a.toList ++ r ≠ b.toList ++ r' := by
  intro eq
  obtain ⟨names, pitches, named⟩ := hs.names
  obtain ⟨u, hu, chars⟩ := Sound.serialized_eq pitches
  cases hu.symm.trans ha
  obtain ⟨filled, each⟩ := hi.items
  obtain ⟨v, vs, first, ts, rfl, hf, -, text⟩ := serialized_array filled hb
  obtain ⟨rest, opening⟩ := serialized_head (each v (.head _)) hf
  rw [chars, text, opening] at eq
  -- behind the first bracket there is another one, or else a name or the end of the names
  have second := (List.cons.inj eq).2
  have inside := Sound.names_chars named
  generalize (String.intercalate ", " names).toList = joined at second inside
  cases joined with
  | nil => cases (List.cons.inj second).1
  | cons c _ => exact (inside c (.head _)).1 (List.cons.inj second).1

/-- What follows the text of a value does not continue a number. -/
def Ends (r : List Char) : Prop := ∀ c ∈ r.head?, ¬ IsSigned c

/-- The text of the value is the text of no other one, whatever follows it. -/
def ReadsOnce (v : Value) : Prop :=
  ∀ {w : Value} {a b : String} {r r' : List Char}, w.Playable → v.serialized none = .ok a →
    w.serialized none = .ok b → Ends r → Ends r' → a.toList ++ r = b.toList ++ r' → v = w ∧ r = r'

theorem sound_readsOnce {s : Sound} (h : s.Playable) : ReadsOnce (.sound s) := by
  intro w a b r r' hw ha hb hr hr' eq
  rw [serialized] at ha
  cases hw with
  | array filled each => exact absurd eq (sound_ne_array h (.array filled each) ha hb)
  | @sound s' h' =>
      rw [serialized] at hb
      obtain ⟨names, pitches, named⟩ := h.names
      obtain ⟨names', pitches', named'⟩ := h'.names
      obtain ⟨_, ht, chars⟩ := Sound.serialized_eq pitches
      obtain ⟨_, ht', chars'⟩ := Sound.serialized_eq pitches'
      cases ht.symm.trans ha
      cases ht'.symm.trans hb
      rw [chars, chars'] at eq
      obtain ⟨same, duration, amplitude, rests⟩ := Sound.chars_unique named named' hr hr' eq
      refine ⟨?_, rests⟩
      obtain ⟨_, _, _⟩ := s
      obtain ⟨_, _, _⟩ := s'
      cases pitches.trans (same ▸ pitches'.symm)
      cases duration
      cases amplitude
      rfl

theorem ends_cons {c : Char} (h : ¬ IsSigned c) (r : List Char) : Ends (c :: r) := by
  rintro d ⟨⟩
  exact h

theorem tails_ends (ts : List String) (r : List Char) : Ends (tails "," ts ++ ']' :: r) := by
  cases ts with
  | nil => exact ends_cons (by decide) r
  | cons t ts =>
      have comma : tails "," (t :: ts) ++ ']' :: r =
          ',' :: (t.toList ++ (tails "," ts ++ ']' :: r)) := by simp [tails]
      rw [comma]
      exact ends_cons (by decide) _

theorem serializedItems_readsOnce {vs ws : List Value} {ts us : List String} {r r' : List Char}
    (once : ∀ v ∈ vs, ReadsOnce v) (hw : ∀ w ∈ ws, w.Playable)
    (ht : serializedItems none vs = .ok ts) (hu : serializedItems none ws = .ok us)
    (eq : tails "," ts ++ ']' :: r = tails "," us ++ ']' :: r') : vs = ws ∧ r = r' := by
  induction vs generalizing ws ts us with
  | nil =>
      rw [serializedItems] at ht
      cases ht
      cases ws with
      | nil =>
          rw [serializedItems] at hu
          cases hu
          exact ⟨rfl, (List.cons.inj eq).2⟩
      | cons w ws =>
          obtain ⟨_, _, -, -, rfl⟩ := serializedItems_cons.1 hu
          simp [tails] at eq
  | cons v vs ih =>
      obtain ⟨first, others, hf, ho, rfl⟩ := serializedItems_cons.1 ht
      cases ws with
      | nil =>
          rw [serializedItems] at hu
          cases hu
          simp [tails] at eq
      | cons w ws =>
          obtain ⟨first', others', hf', ho', rfl⟩ := serializedItems_cons.1 hu
          rw [List.forall_mem_cons] at once hw
          have behind : first.toList ++ (tails "," others ++ ']' :: r) =
              first'.toList ++ (tails "," others' ++ ']' :: r') := by
            simpa [tails] using eq
          obtain ⟨rfl, behind⟩ :=
            once.1 hw.1 hf hf' (tails_ends others r) (tails_ends others' r') behind
          obtain ⟨rfl, rests⟩ := ih once.2 hw.2 ho ho' behind
          exact ⟨rfl, rests⟩

theorem Playable.readsOnce {v : Value} (h : v.Playable) : ReadsOnce v := by
  induction h with
  | sound h => exact sound_readsOnce h
  | @array items filled each ih =>
      intro w a b r r' hw ha hb hr hr' eq
      cases hw with
      | sound h =>
          rw [serialized] at hb
          exact absurd eq.symm (sound_ne_array h (.array filled each) hb ha)
      | array filled' each' =>
          obtain ⟨v, vs, first, ts, rfl, hf, ht, text⟩ := serialized_array filled ha
          obtain ⟨v', vs', first', ts', rfl, hf', ht', text'⟩ := serialized_array filled' hb
          rw [List.forall_mem_cons] at ih each'
          rw [text, text'] at eq
          simp only [List.cons_append, List.append_assoc, List.nil_append, List.cons.injEq,
            true_and] at eq
          obtain ⟨rfl, eq⟩ := ih.1 each'.1 hf hf' (tails_ends ts r) (tails_ends ts' r') eq
          obtain ⟨rfl, rests⟩ := serializedItems_readsOnce ih.2 each'.2 ht ht' eq
          exact ⟨rfl, rests⟩

theorem serializedItems_ok {vs : List Value} (h : ∀ v ∈ vs, ∃ t, v.serialized none = .ok t) :
    ∃ ts, serializedItems none vs = .ok ts := by
  induction vs with
  | nil => exact ⟨[], by rw [serializedItems]⟩
  | cons v vs ih =>
      rw [List.forall_mem_cons] at h
      obtain ⟨t, ht⟩ := h.1
      obtain ⟨ts, hts⟩ := ih h.2
      exact ⟨t :: ts, serializedItems_cons.2 ⟨t, ts, ht, hts, rfl⟩⟩

/-- Every such value can be written. -/
theorem Playable.serialized {v : Value} (h : v.Playable) : ∃ t, v.serialized none = .ok t := by
  induction h with
  | sound h =>
      obtain ⟨names, pitches, -⟩ := h.names
      obtain ⟨t, ht, -⟩ := Sound.serialized_eq pitches
      exact ⟨t, by rw [Value.serialized]; exact ht⟩
  | array _ _ ih =>
      obtain ⟨ts, ht⟩ := serializedItems_ok ih
      refine ⟨"[" ++ String.intercalate "," ts ++ "]", ?_⟩
      rw [Value.serialized]
      exact bind_eq_ok.2 ⟨none, rfl, bind_eq_ok.2 ⟨ts, ht, rfl⟩⟩

end Value

/-! ## Files -/

namespace Track

/-- A value that can be mixed down, and the number of a track. -/
structure Mixdown where
  number : Int
  value : Value
  inRange : 0 ≤ number ∧ number ≤ maxTrack
  playable : value.Playable

namespace Mixdown

/-- The text is the line of the mixdown. -/
def HasLine (m : Mixdown) (l : String) : Prop := IsLine [m.value, .int m.number] m.number l

theorem ext {m m' : Mixdown} (number : m.number = m'.number) (value : m.value = m'.value) :
    m = m' := by
  cases m
  cases m'
  cases number
  cases value
  rfl

theorem hasLine_eq {m : Mixdown} {l : String} (h : m.HasLine l) :
    ∃ t, m.value.serialized none = .ok t ∧ l = line m.number t := by
  obtain ⟨v, t, ⟨⟨⟩, -⟩ | args, ht, rfl⟩ := h
  · cases args
    exact ⟨t, ht, rfl⟩

end Mixdown

/-- The track after the mixdowns, made in order on a new one. -/
def recorded (tempo : Int) (mixdowns : List Mixdown) : Track :=
  mixdowns.foldl (fun t m => (t.mixdown none [m.value, .int m.number]).2) (new tempo)

theorem mixdown_playable (t : Track) (m : Mixdown) :
    ∃ text, m.HasLine (line m.number text) ∧
      t.mixdown none [m.value, .int m.number] = (.ok m.number, t.emit m.number text) := by
  obtain ⟨text, ht⟩ := m.playable.serialized
  have number : checkNumber (.int m.number) = .ok m.number := by
    have := m.inRange
    show (if m.number < 0 ∨ maxTrack < m.number then _ else _) = _
    rw [if_neg (by omega)]
    rfl
  have args : arguments [m.value, .int m.number] = .ok (m.value, m.number) := by
    rw [arguments, number]
    rfl
  refine ⟨text, ⟨m.value, text, .inr rfl, ht, rfl⟩, ?_⟩
  unfold mixdown
  rw [args]
  dsimp only
  rw [ht]

/-- The file of the mixdowns. -/
theorem recorded_file (tempo : Int) (ms : List Mixdown) : ∃ lines,
    List.Forall₂ Mixdown.HasLine ms lines ∧ (recorded tempo ms).emitted = !lines.isEmpty ∧
    (recorded tempo ms).tempo = tempo ∧
    (lines ≠ [] → (recorded tempo ms).file = some (fileText tempo lines)) := by
  induction ms using List.reverseRecOn with
  | nil => exact ⟨[], .nil, rfl, rfl, fun none => absurd rfl none⟩
  | append_singleton ms m ih =>
      obtain ⟨lines, rel, emitted, same, file⟩ := ih
      obtain ⟨text, isLine, eq⟩ := mixdown_playable (recorded tempo ms) m
      have last : recorded tempo (ms ++ [m]) = (recorded tempo ms).emit m.number text := by
        unfold recorded at eq ⊢
        rw [List.foldl_append, List.foldl_cons, List.foldl_nil, eq]
      rw [last]
      refine ⟨lines ++ [line m.number text], ?_, by simp [emit], same, fun _ => ?_⟩
      · exact List.rel_append rel (.cons isLine .nil)
      · have added := emit_file emitted (by rwa [same]) m.number text
        rwa [same] at added

theorem fileText_toList {tempo : Int} {lines : List String} (h : lines ≠ []) :
    (fileText tempo lines).toList =
      (toString tempo).toList ++ '\n' :: lines.flatMap String.toList := by
  rw [fileText, if_neg h]
  simp [String.toList_join]

/-- One line, with what comes before its end and after it. -/
theorem hasLine_toList {m : Mixdown} {l : String} (h : m.HasLine l) :
    ∃ t rest, m.value.serialized none = .ok t ∧ t.toList = '[' :: rest ∧
      ∀ r, l.toList ++ r = (toString m.number).toList ++ (t.toList ++ '\n' :: r) := by
  obtain ⟨t, ht, rfl⟩ := Mixdown.hasLine_eq h
  obtain ⟨rest, opening⟩ := Value.serialized_head m.playable ht
  exact ⟨t, rest, ht, opening, fun r => by simp [line]⟩

theorem lines_unique {ms ms' : List Mixdown} {lines lines' : List String}
    (h : List.Forall₂ Mixdown.HasLine ms lines) (h' : List.Forall₂ Mixdown.HasLine ms' lines')
    (eq : lines.flatMap String.toList = lines'.flatMap String.toList) : ms = ms' := by
  have bracket : ¬ IsSigned '[' := by decide
  induction h generalizing ms' lines' with
  | nil =>
      cases h' with
      | nil => rfl
      | cons first _ =>
          obtain ⟨_, _, -, -, split⟩ := hasLine_toList first
          rw [List.flatMap_cons, split] at eq
          simp at eq
  | cons first _ ih =>
      obtain ⟨t, rest, ht, opening, split⟩ := hasLine_toList first
      rw [List.flatMap_cons, split] at eq
      cases h' with
      | nil => simp at eq
      | cons first' others' =>
          obtain ⟨t', rest', ht', opening', split'⟩ := hasLine_toList first'
          rw [List.flatMap_cons, split'] at eq
          obtain ⟨numbers, eq⟩ := append_unique (toString_chars _) (toString_chars _)
            (by rw [opening]; exact Value.ends_cons bracket _)
            (by rw [opening']; exact Value.ends_cons bracket _) eq
          obtain ⟨values, eq⟩ := Mixdown.playable _ |>.readsOnce (Mixdown.playable _) ht ht'
            (Value.ends_cons (by decide) _) (Value.ends_cons (by decide) _) eq
          have others := ih others' (List.cons.inj eq).2
          rw [Mixdown.ext (toString_inj (String.toList_inj.1 numbers)) values, others]

theorem recorded_lines {ms : List Mixdown} (some : ms ≠ []) (tempo : Int) :
    ∃ lines, List.Forall₂ Mixdown.HasLine ms lines ∧ lines ≠ [] ∧
      (recorded tempo ms).file = Option.some (fileText tempo lines) := by
  obtain ⟨lines, rel, -, -, file⟩ := recorded_file tempo ms
  have filled : lines ≠ [] := by
    rintro rfl
    cases rel
    exact some rfl
  exact ⟨lines, rel, filled, file filled⟩

/-- The file of any mixdowns, at least one, holds their lines below the tempo. It is not the file
    without lines, and it is the file of no other mixdowns and no other tempo. -/
theorem recorded_inj {tempo tempo' : Int} {ms ms' : List Mixdown} (some : ms ≠ [])
    (some' : ms' ≠ []) :
    (∃ lines, List.Forall₂ Mixdown.HasLine ms lines ∧ (recorded tempo ms).file =
      Option.some (toString tempo ++ "\n" ++ String.join lines)) ∧
    (recorded tempo ms).file ≠ Option.some "x\n" ∧
    ((recorded tempo ms).file = (recorded tempo' ms').file → tempo = tempo' ∧ ms = ms') := by
  have newline : ¬ IsSigned '\n' := by decide
  obtain ⟨lines, rel, filled, file⟩ := recorded_lines some tempo
  refine ⟨⟨lines, rel, ?_⟩, ?_, ?_⟩
  · rw [file, fileText, if_neg filled]
  · intro empty
    have text := congrArg String.toList (Option.some.inj (file.symm.trans empty))
    rw [fileText_toList filled] at text
    have parts := append_unique (y := []) (toString_chars tempo) (by simp)
      (Value.ends_cons newline _) (Value.ends_cons (c := 'x') (by decide) _) text
    cases (List.cons.inj parts.2).1
  · intro same
    obtain ⟨lines', rel', filled', file'⟩ := recorded_lines some' tempo'
    rw [file, file'] at same
    have text := congrArg String.toList (Option.some.inj same)
    rw [fileText_toList filled, fileText_toList filled'] at text
    obtain ⟨tempos, text⟩ := append_unique (toString_chars tempo) (toString_chars tempo')
      (Value.ends_cons newline _) (Value.ends_cons newline _) text
    exact ⟨toString_inj (String.toList_inj.1 tempos), lines_unique rel rel' (List.cons.inj text).2⟩

/-- A sound without pitches, alone and in an array of one. -/
theorem recorded_inj_nested : ∃ alone nested : Mixdown,
    alone.value = .sound ⟨[], 0, 0⟩ ∧ nested.value = .array #[.sound ⟨[], 0, 0⟩] ∧
    [alone] ≠ [] ∧ [nested] ≠ [] ∧ (recorded 90 [alone]).file ≠ (recorded 90 [nested]).file := by
  have sound : Value.Playable (.sound ⟨[], 0, 0⟩) := .sound fun _ mem => nomatch mem
  have array : Value.Playable (.array #[.sound ⟨[], 0, 0⟩]) :=
    .array (by simp) (List.forall_mem_singleton.2 sound)
  refine ⟨⟨3, _, by decide, sound⟩, ⟨3, _, by decide, array⟩, rfl, rfl, by simp, by simp, ?_⟩
  intro same
  have equal := (recorded_inj (by simp) (by simp)).2.2 same
  simp at equal

end Track

end Cadence
