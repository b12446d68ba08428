/-
  Built-in functions on proper values: a result that the arguments account for (`Builtin.Gives`), or
  a fault. Such a result is again proper, and meets whatever standard the arguments meet.

  There is one exception. `setPitches` looks at the first item of an array to see that it is one of
  pitches, and then takes the name of every item. Index assignment does not check kinds, so an
  array that begins with a pitch may hold something else (`Event.Clash`), which has no name.

  `Builtin.call_keeps` says this for every invariant that tolerates faults, and `Builtin.call_ends`
  for a call by itself.
-/
import Cadence.Builtin
import Cadence.Proofs.Invariant
import Cadence.Proofs.Standard

namespace Cadence

variable {S : Standard}

/-- A call of `setPitches` with an array that begins with a pitch and does not hold only pitches. -/
def Event.Clash : Event → Prop
  | .performed .setPitches [.sound _, .array items] =>
      (∃ name, items[0]? = some (.pitch name)) ∧ ∃ v ∈ items, ∀ name, v ≠ .pitch name
  | _ => False

theorem Event.Clash.eq_setPitches {b : Builtin} {args : List Value}
    (h : (Event.performed b args).Clash) : b = .setPitches := by
  cases b with
  | setPitches => rfl
  | _ => exact h.elim

/-- A draw below a positive bound is below it. -/
theorem Twister.below_lt {bound : Nat} (positive : 0 < bound) (t : Twister) :
    (t.below bound).1 < bound := by
  have go : ∀ (patience : Nat) (t : Twister), (below.go bound patience t).1 < bound := by
    intro patience
    induction patience with
    | zero => exact fun _ => positive
    | succ n ih =>
        intro t
        unfold below.go
        generalize bits (bound.log2 + 1) t = drawn
        obtain ⟨r, t⟩ := drawn
        dsimp only
        split
        · assumption
        · exact ih t
  exact go patience t

namespace Builtin

/-- What a built-in function may give for its arguments. -/
inductive Gives : Builtin → List Value → Value → Prop
  | print (v : Value) : Gives .print [v] (.int 0)
  | amplitude (s : Sound) : Gives .getAmplitude [.sound s] (.int s.amplitude)
  | duration (s : Sound) : Gives .getDuration [.sound s] (.double s.duration)
  | pitch (name : Json) : Gives .getPitches [.pitch name] (.array #[.pitch name])
  | pitches {s : Sound} (some : s.pitches ≠ []) :
      Gives .getPitches [.sound s] (.array (s.pitches.map .pitch).toArray)
  | setAmplitude (s : Sound) (amplitude : Int) :
      Gives .setAmplitude [.sound s, .int amplitude] (.sound { s with amplitude })
  | setDuration (s : Sound) (duration : Float) :
      Gives .setDuration [.sound s, .double duration] (.sound { s with duration })
  | setPitches (s : Sound) (pitches : List Json) :
      Gives .setPitches [.sound s, .array (pitches.map .pitch).toArray] (.sound { s with pitches })
  | randomInt {bound : Int} {n : Nat} (below : n < bound) : Gives .randomInt [.int bound] (.int n)
  | randomDouble (bound x : Float) : Gives .randomDouble [.double bound] (.double x)
  | length (items : Array Value) : Gives .length [.array items] (.int items.size)
  | bpm {tempo : Int} (positive : 0 < tempo) : Gives .bpm [.int tempo] (.int 0)
  | mixdown (args : List Value) : Gives .mixdown args (.int 0)

/-- Results are of the kind of value that the arguments are. -/
theorem Gives.closed {P : Value → Prop} {name : Json → Prop} {length : Nat → Prop}
    (told : Value.ToldBy P name length) {b : Builtin} {args : List Value} {v : Value}
    (h : Gives b args v) (each : ∀ a ∈ args, P a) : P v := by
  have nat : ∀ {n : Nat} {bound : Int}, n ≤ bound → bound ≤ Integer.maxInt → P (.int n) := by
    intro n bound below small
    refine told.int.2 (Integer.inRange_iff.2 ?_)
    unfold Integer.maxInt at small
    omega
  have zero : P (.int 0) := told.int.2 (by decide)
  cases h with
  | print | bpm | mixdown => exact zero
  | amplitude =>
      obtain ⟨-, -, range⟩ := told.sound.1 (List.forall_mem_singleton.1 each)
      exact told.int.2 range
  | duration s => exact told.double s.duration
  | pitch name =>
      have hp := List.forall_mem_singleton.1 each
      exact told.array.2 ⟨Nat.one_pos, told.one, by simpa using hp⟩
  | @pitches s some =>
      obtain ⟨names, small, -⟩ := told.sound.1 (List.forall_mem_singleton.1 each)
      refine told.array.2 ⟨?_, by simpa using small, ?_⟩
      · simpa [List.length_pos_iff] using some
      · intro w hw
        obtain ⟨p, hp, rfl⟩ : ∃ p ∈ s.pitches, Value.pitch p = w := by simpa using hw
        exact told.pitch.2 (names p hp)
  | setAmplitude s n =>
      obtain ⟨hs, hn⟩ := List.forall_mem_cons.1 each
      obtain ⟨names, small, -⟩ := told.sound.1 hs
      exact told.sound.2 ⟨names, small, told.int.1 (List.forall_mem_singleton.1 hn)⟩
  | setDuration s x =>
      obtain ⟨names, small, range⟩ := told.sound.1 (each _ List.mem_cons_self)
      exact told.sound.2 ⟨names, small, range⟩
  | setPitches s names =>
      obtain ⟨hs, hitems⟩ := List.forall_mem_cons.1 each
      obtain ⟨-, -, range⟩ := told.sound.1 hs
      obtain ⟨-, small, items⟩ := told.array.1 (List.forall_mem_singleton.1 hitems)
      refine told.sound.2 ⟨fun p hp => ?_, by simpa using small, range⟩
      exact told.pitch.1 (items (.pitch p) (by simpa using hp))
  | randomInt below =>
      have range := told.int.1 (List.forall_mem_singleton.1 each)
      exact nat (Int.le_of_lt below) range.2
  | randomDouble _ x => exact told.double x
  | length items =>
      obtain ⟨-, small, -⟩ := told.array.1 (List.forall_mem_singleton.1 each)
      exact nat (Int.le_refl _) (told.bounded small)

/-! ## Arguments -/

variable {args : List Value}

/-- A fault of an argument that is not what it should be. -/
def Wrong (e : Failure) : Prop := ∃ f, e = .fault f ∧ f.kind = .wrongArgumentType

theorem Wrong.isFault {e : Failure} (h : Wrong e) : e.IsFault := by
  obtain ⟨f, rfl, -⟩ := h
  exact ⟨f, rfl⟩

theorem argument_yields {E : Failure → Prop} {i : Nat} (bound : i < args.length) :
    Yields (fun v => args[i]? = some v) E (argument args i) := by
  unfold argument
  rw [List.getElem?_eq_getElem bound]
  exact .ok rfl

theorem wrong_yields {α : Type} (b : Builtin) (expected : List Tag) {v : Value} (h : v.Proper)
    {Q : α → Prop} : Yields Q Wrong (b.wrong expected v) := by
  obtain ⟨got, tag⟩ := h.tag_eq
  unfold wrong
  rw [tag]
  exact .error ⟨.wrongArgument b.name expected got, rfl, rfl⟩

theorem typedArg_yields {α : Type} (pick : Value → Option α) (expected : Tag) (b : Builtin)
    (h : ∀ v ∈ args, v.Proper) {i : Nat} (bound : i < args.length) :
    Yields (fun a => ∃ v, args[i]? = some v ∧ pick v = some a) Wrong
      (typedArg pick expected b args i) := by
  refine (argument_yields bound).bind fun v _ given => ?_
  cases picked : pick v with
  | some a => exact .ok ⟨v, given, picked⟩
  | none => exact b.wrong_yields _ (h v (List.mem_of_getElem? given))

theorem soundArg_yields (b : Builtin) (h : ∀ v ∈ args, v.Proper) {i : Nat}
    (bound : i < args.length) :
    Yields (fun s => args[i]? = some (.sound s)) Wrong (b.soundArg args i) := by
  refine (typedArg_yields _ _ b h bound).mono fun s _ ⟨v, given, picked⟩ => ?_
  rw [given, Value.sound?_eq_some.1 picked]

theorem intArg_yields (b : Builtin) (h : ∀ v ∈ args, v.Proper) {i : Nat}
    (bound : i < args.length) :
    Yields (fun n => args[i]? = some (.int n)) Wrong (b.intArg args i) := by
  refine (typedArg_yields _ _ b h bound).mono fun n _ ⟨v, given, picked⟩ => ?_
  rw [given, Value.int?_eq_some.1 picked]

theorem doubleArg_yields (b : Builtin) (h : ∀ v ∈ args, v.Proper) {i : Nat}
    (bound : i < args.length) :
    Yields (fun x => args[i]? = some (.double x)) Wrong (b.doubleArg args i) := by
  refine (typedArg_yields _ _ b h bound).mono fun x _ ⟨v, given, picked⟩ => ?_
  rw [given, Value.double?_eq_some.1 picked]

theorem arrayArg_yields (b : Builtin) (h : ∀ v ∈ args, v.Proper) {i : Nat}
    (bound : i < args.length) :
    Yields (fun items => args[i]? = some (.array items)) Wrong (b.arrayArg args i) := by
  refine (typedArg_yields _ _ b h bound).mono fun items _ ⟨v, given, picked⟩ => ?_
  rw [given, Value.array?_eq_some.1 picked]

/-- One argument is told by its place. -/
theorem eq_single {a : Value} (one : args.length = 1) (first : args[0]? = some a) :
    args = [a] := by
  match args, one with
  | [x], _ =>
      cases first
      rfl

/-- Two arguments are told by their places. -/
theorem eq_pair {a b : Value} (two : args.length = 2) (first : args[0]? = some a)
    (second : args[1]? = some b) : args = [a, b] := by
  match args, two with
  | [x, y], _ =>
      cases first
      cases second
      rfl

/-! ## Functions without effects -/

theorem pitchesOf_safe (h : ∀ v ∈ args, v.Proper) (one : args.length = 1) :
    Safe (pitchesOf args) (Gives .getPitches args) := by
  refine (argument_yields (by omega)).bind fun v _ first => ?_
  obtain rfl := eq_single one first
  have hv := h v List.mem_cons_self
  match v, hv with
  | .pitch name, _ => exact .ok (.pitch name)
  | .sound s, _ =>
      dsimp only
      split
      · exact safe_fault _
      · next nonempty => exact .ok (.pitches (by simpa using nonempty))
  | .int _, hv | .double _, hv | .bool _, hv | .array _, hv =>
      exact (wrong_yields _ _ hv).weaken fun _ => Wrong.isFault

theorem withAmplitude_safe (h : ∀ v ∈ args, v.Proper) (two : args.length = 2) :
    Safe (withAmplitude args) (Gives .setAmplitude args) := by
  refine Yields.weaken ?_ fun _ => Wrong.isFault
  refine (soundArg_yields _ h (by omega)).bind fun s _ first => ?_
  refine (intArg_yields _ h (by omega)).bind fun amplitude _ second => ?_
  rw [eq_pair two first second]
  exact .ok (.setAmplitude s amplitude)

theorem withDuration_safe (h : ∀ v ∈ args, v.Proper) (two : args.length = 2) :
    Safe (withDuration args) (Gives .setDuration args) := by
  refine Yields.weaken ?_ fun _ => Wrong.isFault
  refine (soundArg_yields _ h (by omega)).bind fun s _ first => ?_
  refine (doubleArg_yields _ h (by omega)).bind fun duration _ second => ?_
  rw [eq_pair two first second]
  exact .ok (.setDuration s duration)

theorem intBound_safe (h : ∀ v ∈ args, v.Proper) (one : args.length = 1) :
    Safe (intBound args) fun bound => 0 < bound ∧ args = [.int bound] := by
  refine ((intArg_yields _ h (by omega)).weaken fun _ => Wrong.isFault).bind fun bound _ first => ?_
  split
  · exact safe_fault _
  · have positive : (bound.toNat : Int) = bound := by omega
    exact .ok ⟨by omega, by rw [positive]; exact eq_single one first⟩

theorem doubleBound_safe (h : ∀ v ∈ args, v.Proper) (one : args.length = 1) :
    Safe (doubleBound args) fun bound => args = [.double bound] := by
  refine ((doubleArg_yields _ h (by omega)).weaken fun _ => Wrong.isFault).bind ?_
  intro bound _ first
  split
  · exact safe_fault _
  · exact .ok (eq_single one first)

theorem tempo_safe (h : ∀ v ∈ args, v.Proper) (one : args.length = 1) :
    Safe (tempo args) fun n => 0 < n ∧ args = [.int n] := by
  refine ((intArg_yields _ h (by omega)).weaken fun _ => Wrong.isFault).bind fun n _ first => ?_
  split
  · exact safe_fault _
  · exact .ok ⟨by omega, eq_single one first⟩

/-! ## Pitches of a sound -/

/-- Pitches have names. -/
theorem pitchNames_map (names : List Json) : pitchNames (names.map .pitch) = .ok names := by
  induction names with
  | nil => rfl
  | cons name rest ih =>
      rw [List.map_cons, pitchNames, ih]
      rfl

/-- Items that are all pitches are given by their names. -/
theorem exists_names {items : Array Value} (all : ∀ v ∈ items, ∃ name, v = .pitch name) :
    ∃ names : List Json, items = (names.map .pitch).toArray := by
  have each : ∀ vs : List Value, (∀ v ∈ vs, ∃ name, v = .pitch name) →
      ∃ names : List Json, vs = names.map .pitch := by
    intro vs
    induction vs with
    | nil => exact fun _ => ⟨[], rfl⟩
    | cons v rest ih =>
        intro h
        obtain ⟨⟨name, rfl⟩, hrest⟩ := List.forall_mem_cons.1 h
        obtain ⟨names, rfl⟩ := ih hrest
        exact ⟨name :: names, rfl⟩
  obtain ⟨names, eq⟩ := each items.toList (by simpa using all)
  exact ⟨names, by rw [← eq]⟩

/-- The first item that is no pitch is a defect. -/
theorem pitchNames_eq_error {vs : List Value} (mixed : ∃ v ∈ vs, ∀ name, v ≠ .pitch name) :
    ∃ kind, pitchNames vs = .error (.defect (.noPart kind "name")) := by
  induction vs with
  | nil => obtain ⟨v, hv, -⟩ := mixed; cases hv
  | cons v rest ih =>
      cases v with
      | pitch name =>
          obtain ⟨w, hw, other⟩ := mixed
          rcases List.mem_cons.1 hw with rfl | hw
          · exact absurd rfl (other name)
          · obtain ⟨kind, e⟩ := ih ⟨w, hw, other⟩
            exact ⟨kind, by rw [pitchNames, e]; rfl⟩
      | _ => exact ⟨_, rfl⟩

theorem elementTag_eq_pitch {items : Array Value} :
    Value.elementTag items = .ok .pitch ↔ ∃ name, items[0]? = some (.pitch name) := by
  unfold Value.elementTag
  cases items[0]? with
  | none => simp
  | some v => cases v <;> simp [Value.tag]

theorem withPitches_eq_error (clash : (Event.performed .setPitches args).Clash) :
    ∃ kind, withPitches args = .error (.defect (.noPart kind "name")) := by
  match args, clash with
  | [.sound s, .array items], ⟨first, mixed⟩ =>
      have tag := elementTag_eq_pitch.2 first
      obtain ⟨kind, e⟩ : ∃ kind, pitchNames items.toList = .error (.defect (.noPart kind "name")) :=
        pitchNames_eq_error (by simpa using mixed)
      refine ⟨kind, ?_⟩
      show (Value.elementTag items >>= _) = _
      rw [tag]
      show (pitchNames items.toList >>= _) = _
      rw [e]
      rfl

theorem withPitches_yields (h : ∀ v ∈ args, v.Proper) (two : args.length = 2)
    (apart : ¬ (Event.performed .setPitches args).Clash) :
    Yields (Gives .setPitches args) Wrong (withPitches args) := by
  refine (soundArg_yields _ h (by omega)).bind fun s _ first => ?_
  refine (arrayArg_yields _ h (by omega)).bind fun items _ second => ?_
  obtain ⟨tag, found⟩ := (h _ (List.mem_of_getElem? second)).elementTag_eq
  rw [found]
  show Yields _ _ (if tag ≠ .pitch then _ else _)
  split
  · exact .error ⟨.notPitchArray tag, rfl, rfl⟩
  · next isPitch =>
      have isPitch : tag = .pitch := by simpa using isPitch
      rw [eq_pair two first second] at apart ⊢
      have all : ∀ v ∈ items, ∃ name, v = .pitch name := by
        intro v hv
        refine Classical.byContradiction fun other => ?_
        refine apart ⟨elementTag_eq_pitch.1 (isPitch ▸ found), v, hv, ?_⟩
        exact fun name e => other ⟨name, e⟩
      obtain ⟨names, rfl⟩ := exists_names all
      show Yields _ _ (pitchNames (names.map .pitch) >>= _)
      rw [pitchNames_map]
      exact .ok (.setPitches s names)

theorem checkNumber_safe {v : Value} (h : v.Proper) :
    Safe (Track.checkNumber v) fun _ => True := by
  refine h.tag_safe.bind fun tag _ _ => ?_
  split
  · split
    · exact safe_fault _
    · exact .ok trivial
  · exact safe_fault _

theorem mixdown_safe (t : Track) (room : Value.Room) (h : ∀ v ∈ args, v.Proper) :
    Safe (t.mixdown room args).1 fun _ => True := by
  have arguments : Safe (Track.arguments args) fun p => p.1.Proper := by
    match args, h with
    | [v], h => exact .ok (h v List.mem_cons_self)
    | [v, number], h =>
        exact (checkNumber_safe (h number (by simp))).map fun _ _ _ => h v List.mem_cons_self
    | [], _ | _ :: _ :: _ :: _, _ => exact safe_fault _
  unfold Track.mixdown
  cases r : Track.arguments args with
  | error e => exact .error (arguments.of_error r)
  | ok p =>
      have hv : p.1.Proper := arguments.of_ok r
      obtain ⟨v, number⟩ := p
      dsimp only
      cases text : v.serialized room with
      | error e => exact .error (hv.serialized_safe.of_error text)
      | ok text => exact .ok trivial

theorem setTempo_safe (t : Track) (n : Int) : Safe (t.setTempo n) fun _ => True := by
  unfold Track.setTempo
  split
  · exact safe_fault _
  · exact .ok trivial

end Builtin

/-! ## Calls -/

/-- Faults may end a run, and only functions and history of the studio matter. -/
structure Invariant.Tolerates {ι : Type} (I : Invariant ι) : Prop where
  fault : ∀ f s, I.studio s → I.failed (.fault f) s
  studio : ∀ s t, I.studio s → t.functions = s.functions → t.history = s.history → I.studio t

namespace Invariant.Tolerates

open Invariant

variable {ι α : Type} {I : Invariant ι} {args : List Value}

theorem failed (t : I.Tolerates) {e : Failure} (h : e.IsFault) {s : Studio} (hs : I.studio s) :
    I.failed e s := by
  obtain ⟨f, rfl⟩ := h
  exact t.fault f s hs

theorem lift_keeps (t : I.Tolerates) {r : Except Failure α} {Q : α → Prop} (h : Safe r Q) :
    I.Keeps (Act.lift r) Q :=
  Keeps.lift (h.weaken fun _ fault _ hs => t.failed fault hs)

theorem typed_keeps (t : I.Tolerates) {r : Except Failure α} {Q : α → Prop}
    (h : Yields Q Builtin.Wrong r) : I.Keeps (Act.lift r) Q :=
  t.lift_keeps (h.weaken fun _ => Builtin.Wrong.isFault)

theorem mixdown_keeps (t : I.Tolerates) (room : Value.Room) (h : ∀ v ∈ args, v.Proper) :
    I.Keeps (Act.mixdown room args) fun _ => True := by
  intro s hs
  have ends := Builtin.mixdown_safe s.track room h
  unfold Act.mixdown
  rcases r : s.track.mixdown room args with ⟨e | n, after⟩ <;> rw [r] at ends
  · exact t.failed (ends.of_error rfl) (t.studio s _ hs rfl rfl)
  · exact ⟨trivial, t.studio s _ hs rfl rfl⟩

theorem setTempo_keeps (t : I.Tolerates) (n : Int) : I.Keeps (Act.setTempo n) fun _ => True := by
  intro s hs
  have ends := Builtin.setTempo_safe s.track n
  unfold Act.setTempo
  cases r : s.track.setTempo n with
  | error e => exact t.failed (ends.of_error r) hs
  | ok track => exact ⟨trivial, t.studio s _ hs rfl rfl⟩

end Invariant.Tolerates

namespace Builtin

open Invariant

variable {args : List Value}

theorem call_keeps {ι : Type} {I : Invariant ι} (t : I.Tolerates) (room : Value.Room) (b : Builtin)
    (h : ∀ v ∈ args, v.Proper) (arity : ∀ n, b.arity = some n → args.length = n)
    (apart : ¬ (Event.performed b args).Clash) : I.Keeps (b.call room args) (Gives b args) := by
  have drawn : ∀ random s, I.studio s → I.studio { s with random } :=
    fun _ s hs => t.studio s _ hs rfl rfl
  cases b with
  | print =>
      have one := arity 1 rfl
      refine (t.lift_keeps (argument_yields (i := 0) (by omega))).bind fun v first => ?_
      obtain rfl := eq_single one first
      refine (t.lift_keeps (h v List.mem_cons_self).text_safe).bind fun text _ => ?_
      have shown : I.Keeps (Act.print (.printed text)) fun _ => True :=
        Keeps.modify fun s hs => t.studio s _ hs rfl rfl
      exact shown.bind fun _ _ => Keeps.pure (.print v)
  | getAmplitude =>
      have one := arity 1 rfl
      refine (t.typed_keeps (soundArg_yields _ h (i := 0) (by omega))).bind fun s first => ?_
      obtain rfl := eq_single one first
      exact Keeps.pure (.amplitude s)
  | getDuration =>
      have one := arity 1 rfl
      refine (t.typed_keeps (soundArg_yields _ h (i := 0) (by omega))).bind fun s first => ?_
      obtain rfl := eq_single one first
      exact Keeps.pure (.duration s)
  | getPitches => exact t.lift_keeps (pitchesOf_safe h (arity 1 rfl))
  | setAmplitude => exact t.lift_keeps (withAmplitude_safe h (arity 2 rfl))
  | setDuration => exact t.lift_keeps (withDuration_safe h (arity 2 rfl))
  | setPitches => exact t.typed_keeps (withPitches_yields h (arity 2 rfl) apart)
  | randomInt =>
      refine (t.lift_keeps (intBound_safe h (arity 1 rfl))).bind ?_
      rintro bound ⟨positive, rfl⟩
      have draw : I.Keeps (Act.randomBelow bound) (· < bound) :=
        Keeps.randomBelow drawn (Twister.below_lt positive)
      exact draw.bind fun n below => Keeps.pure (.randomInt (by omega))
  | randomDouble =>
      refine (t.lift_keeps (doubleBound_safe h (arity 1 rfl))).bind ?_
      rintro bound rfl
      exact (Keeps.randomDouble drawn).bind fun x _ => Keeps.pure (.randomDouble bound _)
  | length =>
      have one := arity 1 rfl
      refine (t.typed_keeps (arrayArg_yields _ h (i := 0) (by omega))).bind fun items first => ?_
      obtain rfl := eq_single one first
      exact Keeps.pure (.length items)
  | bpm =>
      refine (t.lift_keeps (tempo_safe h (arity 1 rfl))).bind ?_
      rintro n ⟨positive, rfl⟩
      exact (t.setTempo_keeps n).bind fun _ _ => Keeps.pure (.bpm positive)
  | mixdown => exact (t.mixdown_keeps room h).bind fun _ _ => Keeps.pure (.mixdown args)

end Builtin

end Cadence
