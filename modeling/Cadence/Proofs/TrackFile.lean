/-
  The track file after a run.

  A run that fails leaves the file as it is before anything is mixed down. A run that returns a
  value leaves the tempo and one line for each mixdown that it made, in the order in which it made
  them, each of them confirmed on the console (`run_leavesTrack`). The exception is a track file
  that is the debug log as well, while messages are written to it.

  The invariant is `Recorded`: at every moment the track, the console and the events of the run so
  far agree.
-/
import Mathlib.Data.List.Forall2
import Cadence.Proofs.Run

namespace Cadence

/-! ## What a run asks for -/

namespace Event

/-- The arguments of a mixdown. -/
def mixdown? : Event → Option (List Value)
  | .performed .mixdown args => some args
  | _ => none

/-- The arguments of the mixdowns among some events, in order. -/
def mixdowns (events : List Event) : List (List Value) := events.filterMap mixdown?

/-- The tempo that a call of `bpm` asks for. -/
def tempo? : Event → Option Int
  | .performed .bpm [.int n] => some n
  | _ => none

/-- The tempo at the first mixdown: that of the last `bpm` before it, and at first the one that is
    configured. -/
def tempo (configured : Int) : List Event → Int
  | [] => configured
  | e :: rest =>
      if (mixdown? e).isSome then configured else tempo ((tempo? e).getD configured) rest

theorem mixdowns_append (events : List Event) (e : Event) :
    mixdowns (events ++ [e]) = mixdowns events ++ (mixdown? e).toList := by
  simp only [mixdowns, List.filterMap_append, List.filterMap_cons, List.filterMap_nil]
  cases mixdown? e <;> rfl

/-- After a mixdown the tempo is settled; before it, each `bpm` sets it. -/
theorem tempo_append (configured : Int) (events : List Event) (e : Event) :
    tempo configured (events ++ [e]) =
      if mixdowns events = [] ∧ mixdown? e = none then
        (tempo? e).getD (tempo configured events)
      else tempo configured events := by
  induction events generalizing configured with
  | nil => cases h : mixdown? e <;> simp [tempo, mixdowns, h]
  | cons d rest ih =>
      cases h : mixdown? d with
      | none => simp [tempo, mixdowns, h, ih]
      | some args => simp [tempo, mixdowns, h]

end Event

/-- The number that a line on the console confirms. -/
def Line.confirmed? : Line → Option Int
  | .mixedDown n => some n
  | _ => none

namespace Track

/-- What a mixdown with these arguments adds to a file: the line, with the number of the track, of
    the value that it names. Track 0 is meant if none is named. -/
def IsLine (args : List Value) (number : Int) (line : String) : Prop :=
  ∃ v text, (args = [v] ∧ number = 0 ∨ args = [v, .int number]) ∧
    v.serialized none = .ok text ∧ line = toString number ++ text ++ "\n"

/-- A file with the given lines: only `x` if there is none, and otherwise the tempo above them. -/
def fileText (tempo : Int) (lines : List String) : String :=
  if lines = [] then "x\n" else toString tempo ++ "\n" ++ String.join lines

/-- The track is as the events of a run make it, with these numbers and lines. -/
structure Shows (t : Track) (configured : Int) (events : List Event)
    (entries : List (Int × String)) : Prop where
  lines : List.Forall₂ (fun args e => IsLine args e.1 e.2) (Event.mixdowns events) entries
  emitted : t.emitted = !entries.isEmpty
  tempo : t.tempo = Event.tempo configured events
  file : t.file = some (fileText t.tempo (entries.map Prod.snd))

end Track

/-! ## Texts of values, with and without a bound on nesting -/

namespace Value

mutual
/-- A value that can be written within a bound is written so without one. -/
theorem serialized_none {room : Room} : ∀ {v : Value} {t : String},
    v.serialized room = .ok t → v.serialized none = .ok t
  | .array ⟨items⟩, t, h => by
      rw [serialized, bind_eq_ok] at h
      obtain ⟨inside, -, h⟩ := h
      obtain ⟨texts, ht, h⟩ := bind_eq_ok.1 h
      rw [serialized]
      show (serializedItems none items >>= _) = _
      rw [serializedItems_none ht]
      exact h
  | .sound s, t, h => by rw [serialized] at h ⊢; exact h
  | .int _, t, h | .double _, t, h | .bool _, t, h | .pitch _, t, h | .ref .., t, h
  | .foreign _, t, h => by simpa [serialized] using h

theorem serializedItems_none {room : Room} : ∀ {vs : List Value} {ts : List String},
    serializedItems room vs = .ok ts → serializedItems none vs = .ok ts
  | [], ts, h => by rw [serializedItems] at h ⊢; exact h
  | v :: vs, ts, h => by
      rw [serializedItems, bind_eq_ok] at h
      obtain ⟨t, ht, h⟩ := h
      obtain ⟨rest, hr, h⟩ := bind_eq_ok.1 h
      rw [serializedItems, serialized_none ht]
      show (serializedItems none vs >>= _) = _
      rw [serializedItems_none hr]
      exact h
end

end Value

namespace Track

theorem checkNumber_eq_ok {v : Value} {n : Int} (h : checkNumber v = .ok n) : v = .int n := by
  obtain ⟨tag, -, h⟩ := bind_eq_ok.1 h
  cases v with
  | int k =>
      dsimp only at h
      split at h
      · cases h
      · exact congrArg Value.int (Except.ok.inj h)
  | _ => cases h

theorem arguments_eq_ok {args : List Value} {v : Value} {n : Int}
    (h : arguments args = .ok (v, n)) : args = [v] ∧ n = 0 ∨ args = [v, .int n] := by
  match args, h with
  | [_], h => cases h; exact .inl ⟨rfl, rfl⟩
  | [w, number], h =>
      simp only [arguments] at h
      cases hn : checkNumber number with
      | error e => rw [hn] at h; exact absurd h nofun
      | ok k => rw [hn] at h; cases h; exact .inr (by rw [checkNumber_eq_ok hn])

/-- A mixdown that succeeds adds the line of its arguments. -/
theorem mixdown_eq_ok {t u : Track} {room : Value.Room} {args : List Value} {n : Int}
    (h : t.mixdown room args = (.ok n, u)) :
    ∃ text, IsLine args n (line n text) ∧ u = t.emit n text ∧
      t.written room args = some (t.emission n text) := by
  unfold mixdown at h
  unfold written
  cases ha : arguments args with
  | error e => rw [ha] at h; cases h
  | ok p =>
      obtain ⟨v, number⟩ := p
      rw [ha] at h
      dsimp only at h ⊢
      cases ht : v.serialized room with
      | error e => rw [ht] at h; cases h
      | ok text =>
          rw [ht] at h
          cases h
          exact ⟨text, ⟨v, text, arguments_eq_ok ha, Value.serialized_none ht, rfl⟩, rfl, rfl⟩

theorem mixdown_defaultTempo (t : Track) (room : Value.Room) (args : List Value) :
    (t.mixdown room args).2.defaultTempo = t.defaultTempo := by
  unfold mixdown
  split
  · split <;> rfl
  · split <;> rfl

theorem fileText_append {tempo : Int} {lines : List String} (some : lines ≠ []) (l : String) :
    fileText tempo (lines ++ [l]) = fileText tempo lines ++ l := by
  simp [fileText, some, String.join_append, String.append_assoc]

/-- A line added to a file of lines, the first one in place of what the file held. -/
theorem emit_file {t : Track} {lines : List String} (emitted : t.emitted = !lines.isEmpty)
    (file : lines ≠ [] → t.file = some (fileText t.tempo lines)) (n : Int) (text : String) :
    (t.emit n text).file = some (fileText t.tempo (lines ++ [line n text])) := by
  cases lines with
  | nil => simp [emit, emission, emitted, Write.over, fileText, String.join]
  | cons l rest =>
      have more : l :: rest ≠ [] := by simp
      rw [fileText_append more]
      simp [emit, emission, emitted, Write.over, file more]

namespace Shows

variable {t u : Track} {configured : Int} {events : List Event} {entries : List (Int × String)}

theorem of_reset (t : Track) : t.reset.Shows t.defaultTempo [] [] :=
  { lines := .nil, emitted := rfl, tempo := rfl, file := rfl }

/-- An event that is neither a mixdown nor a change of tempo leaves no trace. -/
theorem other (h : t.Shows configured events entries) {e : Event} (hm : e.mixdown? = none)
    (ht : e.tempo? = none) : t.Shows configured (events ++ [e]) entries where
  lines := by simpa [Event.mixdowns_append, hm] using h.lines
  emitted := h.emitted
  tempo := by simpa [Event.tempo_append, hm, ht] using h.tempo
  file := h.file

theorem emit (h : t.Shows configured events entries) {args : List Value} {n : Int} {text : String}
    (hl : IsLine args n (line n text)) :
    (t.emit n text).Shows configured (events ++ [.performed .mixdown args])
      (entries ++ [(n, line n text)]) where
  lines := by
    rw [Event.mixdowns_append]
    exact List.rel_append h.lines (.cons hl .nil)
  emitted := by simp [Track.emit]
  tempo := by simpa [Event.tempo_append, Event.mixdown?, Track.emit] using h.tempo
  file := by
    rw [List.map_append]
    exact emit_file (by simp [h.emitted]) (fun _ => h.file) n text

theorem setTempo (h : t.Shows configured events entries) {n : Int} (ht : t.setTempo n = .ok u) :
    u.Shows configured (events ++ [.performed .bpm [.int n]]) entries := by
  unfold Track.setTempo at ht
  split at ht
  · cases ht
  · next silent =>
      cases ht
      -- nothing has been mixed down yet, so the tempo is still open
      have none : entries = [] := by simpa [h.emitted] using silent
      subst none
      have quiet : Event.mixdowns events = [] := by simpa using h.lines
      exact
        { lines := by simpa [Event.mixdowns_append, Event.mixdown?] using h.lines
          emitted := h.emitted
          tempo := by simp [Event.tempo_append, quiet, Event.mixdown?, Event.tempo?]
          file := by simpa [fileText] using h.file }

end Shows

end Track

/-! ## The invariant of a run -/

/-- The studio is set up as the options say. -/
structure Configured (options : Options) (s : Studio) : Prop where
  defaultTempo : s.track.defaultTempo = options.tempo
  shared : s.shared.isSome = options.shared

/-- The track and the console are as the events of the run have made them, the console beginning
    with what it showed before. While nothing is written to the log, a file that is both holds the
    track and nothing else. -/
structure Recorded (options : Options) (before : List Line) (s : Studio) : Prop
    extends Configured options s where
  shown : ∃ entries new, s.track.Shows options.tempo s.events entries ∧
    s.console.toList = before ++ new ∧ new.filterMap Line.confirmed? = entries.map Prod.fst
  bytes : ¬ 0 < options.debugLevel → ∀ f ∈ s.shared, ∃ text,
    s.track.file = some text ∧ f.bytes = text.toUTF8

namespace Recorded

variable {options : Options} {before : List Line} {s t : Studio}

theorem of_eq (h : Recorded options before s) (track : t.track = s.track)
    (shared : t.shared = s.shared) (console : t.console = s.console)
    (history : t.history = s.history) : Recorded options before t where
  defaultTempo := by rw [track]; exact h.defaultTempo
  shared := by rw [shared]; exact h.shared
  shown := by
    simp only [Studio.events, track, console, history]
    exact h.shown
  bytes := by rw [track, shared]; exact h.bytes

theorem noted (h : Recorded options before s) {e : Event} (hm : e.mixdown? = none)
    (ht : e.tempo? = none) : Recorded options before (s.noted e) where
  defaultTempo := h.defaultTempo
  shared := h.shared
  shown := by
    obtain ⟨entries, new, shows, rest⟩ := h.shown
    refine ⟨entries, new, ?_, rest⟩
    rw [Studio.events_noted]
    exact shows.other hm ht
  bytes := h.bytes

/-- A line on the console that confirms nothing. -/
theorem printed (h : Recorded options before s) {l : Line} (quiet : l.confirmed? = none) :
    Recorded options before { s with console := s.console.push l } where
  defaultTempo := h.defaultTempo
  shared := h.shared
  shown := by
    obtain ⟨entries, new, shows, console, confirmed⟩ := h.shown
    refine ⟨entries, new ++ [l], shows, ?_, ?_⟩
    · simp [console]
    · simp [List.filterMap_append, quiet, confirmed]
  bytes := h.bytes

theorem debugged (h : Recorded options before s) (pos : 0 < options.debugLevel) (text : String) :
    Recorded options before (s.debug text) := by
  unfold Studio.debug
  split
  · exact
      { defaultTempo := h.defaultTempo
        shared := by simpa using h.shared
        shown := h.shown
        bytes := fun silent => absurd pos silent }
  · exact h.printed rfl

/-- A mixdown that succeeds is recorded with its line and its confirmation. -/
theorem mixdown (h : Recorded options before s) {room : Value.Room} {args : List Value} {n : Int}
    {u : Track} (hu : s.track.mixdown room args = (.ok n, u)) :
    Recorded options before
      { s.noted (.performed .mixdown args) with
        track := u
        shared := s.shared.map fun f => ((s.track.written room args).map f.track).getD f
        console := s.console.push (.mixedDown n) } where
  defaultTempo := by
    have := s.track.mixdown_defaultTempo room args
    rw [hu] at this
    exact this.trans h.defaultTempo
  shared := by simpa using h.shared
  shown := by
    obtain ⟨text, isLine, rfl, -⟩ := Track.mixdown_eq_ok hu
    obtain ⟨entries, new, shows, console, confirmed⟩ := h.shown
    refine ⟨entries ++ [(n, Track.line n text)], new ++ [.mixedDown n], ?_, ?_, ?_⟩
    · exact (Studio.events_noted s _).symm ▸ shows.emit isLine
    · simp [console]
    · simp [List.filterMap_append, Line.confirmed?, confirmed]
  bytes := by
    intro silent f hf
    obtain ⟨text, -, rfl, written⟩ := Track.mixdown_eq_ok hu
    obtain ⟨g, hg, rfl⟩ := Option.map_eq_some_iff.1 hf
    obtain ⟨old, file, bytes⟩ := h.bytes silent g hg
    refine ⟨(s.track.emission n text).over old, by simp [Track.emit, file], ?_⟩
    rw [written]
    show (g.track (s.track.emission n text)).bytes = _
    cases s.track.emission n text with
    | anew new => rfl
    | more new => simp [SharedFile.track, Track.Write.over, bytes]

theorem setTempo (h : Recorded options before s) {n : Int} {u : Track}
    (hu : s.track.setTempo n = .ok u) :
    Recorded options before { s.noted (.performed .bpm [.int n]) with track := u } := by
  have kept : u.defaultTempo = s.track.defaultTempo ∧ u.file = s.track.file := by
    unfold Track.setTempo at hu
    split at hu
    · cases hu
    · cases hu; exact ⟨rfl, rfl⟩
  obtain ⟨entries, new, shows, rest⟩ := h.shown
  exact
    { defaultTempo := kept.1.trans h.defaultTempo
      shared := h.shared
      shown := ⟨entries, new, (Studio.events_noted s _).symm ▸ shows.setTempo hu, rest⟩
      bytes := fun silent f hf => kept.2.symm ▸ h.bytes silent f hf }

end Recorded

/-- The invariant of any run. It asks nothing of values, environments and nodes. -/
def recording (options : Options) (before : List Line) : Invariant Unit where
  value _ := True
  env _ _ := True
  globals _ := True
  expr _ _ := True
  stmt _ _ := True
  studio := Recorded options before
  failed _ := Configured options
  cut := Configured options

namespace recording

variable {options : Options} {before : List Line}

open Invariant

theorem failed_of_studio (e : Failure) (s : Studio) (hs : Recorded options before s) :
    (recording options before).failed e s := hs.toConfigured

theorem allows {α : Type} (r : Except Failure α) {Q : α → Prop} (hQ : ∀ a, Q a) :
    (recording options before).Allows r Q :=
  ofStudio_allows failed_of_studio r hQ

theorem lift_keeps {α : Type} (r : Except Failure α) :
    (recording options before).Keeps (Act.lift r) fun _ => True :=
  Keeps.lift (allows r fun _ => trivial)

theorem tempo_eq_ok {args : List Value} {n : Int} (one : args.length = 1)
    (h : Builtin.tempo args = .ok n) : args = [.int n] := by
  obtain ⟨v, rfl⟩ := List.length_eq_one_iff.1 one
  obtain ⟨m, hm, h⟩ := bind_eq_ok.1 h
  split at h
  · cases h
  · cases h
    cases v with
    | int k => exact congrArg (fun k => [Value.int k]) (Except.ok.inj hm)
    | _ => cases hm

/-- What a call of `bpm` does. -/
theorem perform_bpm (room : Value.Room) (args : List Value) (s : Studio) :
    Builtin.bpm.perform room args s =
      match Builtin.tempo args >>= s.track.setTempo with
      | .error e => (.failed e, s.noted (.performed .bpm args))
      | .ok track => (.done (.int 0), { s.noted (.performed .bpm args) with track }) := by
  show Act.bind (Act.lift (Builtin.tempo args)) _ (s.noted _) = _
  cases Builtin.tempo args with
  | error e => rfl
  | ok n =>
      have same : (s.noted (.performed .bpm args)).track = s.track := rfl
      have next : (Except.ok n >>= s.track.setTempo) = s.track.setTempo n := rfl
      show Act.bind (Act.setTempo n) _ (s.noted _) = _
      unfold Act.bind Act.setTempo
      rw [same, next]
      cases s.track.setTempo n <;> rfl

theorem bpm_keeps (room : Value.Room) {args : List Value} (one : args.length = 1) :
    (recording options before).Keeps (Builtin.bpm.perform room args) fun _ => True := by
  intro s hs
  rw [perform_bpm]
  cases hu : Builtin.tempo args >>= s.track.setTempo with
  | error e => exact ⟨hs.defaultTempo, hs.shared⟩
  | ok u =>
      obtain ⟨n, ht, hu⟩ := bind_eq_ok.1 hu
      rw [tempo_eq_ok one ht]
      exact ⟨trivial, hs.setTempo hu⟩

/-- What a call of `mixdown` does. -/
theorem perform_mixdown (room : Value.Room) (args : List Value) (s : Studio) :
    Builtin.mixdown.perform room args s =
      let shared := s.shared.map fun f => ((s.track.written room args).map f.track).getD f
      match s.track.mixdown room args with
      | (.error e, track) => (.failed e, { s.noted (.performed .mixdown args) with track, shared })
      | (.ok n, track) => (.done (.int 0),
          { s.noted (.performed .mixdown args) with
            track, shared, console := s.console.push (.mixedDown n) }) := by
  show Act.bind (Act.mixdown room args) _ (s.noted _) = _
  have same : (s.noted (.performed .mixdown args)).track = s.track := rfl
  unfold Act.bind Act.mixdown
  rw [same]
  rcases s.track.mixdown room args with ⟨_ | _, _⟩ <;> rfl

theorem mixdown_keeps (room : Value.Room) (args : List Value) :
    (recording options before).Keeps (Builtin.mixdown.perform room args) fun _ => True := by
  intro s hs
  rw [perform_mixdown]
  rcases hu : s.track.mixdown room args with ⟨e | n, u⟩
  · have same := s.track.mixdown_defaultTempo room args
    rw [hu] at same
    exact ⟨same.trans hs.defaultTempo, by simpa using hs.shared⟩
  · exact ⟨trivial, hs.mixdown hu⟩

theorem note_keeps {e : Event} (hm : e.mixdown? = none) (ht : e.tempo? = none) :
    (recording options before).Keeps (Act.note e) fun _ => True :=
  Keeps.modify fun _ hs => hs.noted hm ht

theorem perform_keeps (room : Value.Room) (b : Builtin) {args : List Value}
    (arity : ∀ n, b.arity = some n → args.length = n) :
    (recording options before).Keeps (b.perform room args) fun _ => True := by
  have drawn : ∀ random s, Recorded options before s → Recorded options before { s with random } :=
    fun _ _ hs => hs.of_eq rfl rfl rfl rfl
  cases b with
  | bpm => exact bpm_keeps room (arity 1 rfl)
  | mixdown => exact mixdown_keeps room args
  | print =>
      refine (note_keeps rfl rfl).bind fun _ _ => ?_
      refine (lift_keeps _).bind fun v _ => (lift_keeps _).bind fun text _ => ?_
      have shown : (recording options before).Keeps (Act.print (.printed text)) fun _ => True :=
        Keeps.modify fun _ hs => hs.printed rfl
      exact shown.bind fun _ _ => Keeps.pure trivial
  | randomInt =>
      refine (note_keeps rfl rfl).bind fun _ _ => (lift_keeps _).bind fun bound _ => ?_
      refine (Keeps.randomBelow (Q := fun _ => True) drawn fun _ => trivial).bind fun _ _ => ?_
      exact Keeps.pure trivial
  | randomDouble =>
      refine (note_keeps rfl rfl).bind fun _ _ => (lift_keeps _).bind fun bound _ => ?_
      exact (Keeps.randomDouble drawn).bind fun _ _ => Keeps.pure trivial
  | getAmplitude | getDuration | length =>
      refine (note_keeps rfl rfl).bind fun _ _ => (lift_keeps _).bind fun _ _ => ?_
      exact Keeps.pure trivial
  | getPitches | setAmplitude | setDuration | setPitches =>
      exact (note_keeps rfl rfl).bind fun _ _ => lift_keeps _

/-- No event other than a call of a built-in function has to do with the track. -/
theorem noted {e : Event} {s : Studio} (admitted : (recording options before).Admits e)
    (hs : Recorded options before s) : Recorded options before (s.noted e) := by
  cases e with
  | performed => exact admitted.elim
  | _ => exact hs.noted rfl rfl

theorem kept (functions : Functions) :
    (recording options before).Kept (Session.context options functions) :=
  ofStudio_kept failed_of_studio (fun _ hs => hs.toConfigured)
    (fun _ _ admitted hs => noted admitted hs) (fun pos text _ hs => hs.debugged pos text)
    (fun _ _ hs => hs.of_eq rfl rfl rfl rfl) (fun _ _ _ h => ⟨h.defaultTempo, h.shared⟩)
    (fun _ _ h => ⟨h.defaultTempo, h.shared⟩) (fun b _ arity => perform_keeps _ b arity)

theorem launched (decls functions : List Node) :
    (recording options before).Launched options decls functions where
  named _ _ := allows _ fun _ => trivial
  declared _ _ _ _ hs := hs.of_eq rfl rfl rfl rfl
  globals := allows _ fun _ => trivial
  kept s _ := kept s.functions

end recording

/-! ## Runs -/

namespace Configured

variable {options : Options} {s t : Studio}

theorem of_eq (h : Configured options s) (tempo : t.track.defaultTempo = s.track.defaultTempo)
    (shared : t.shared.isSome = s.shared.isSome) : Configured options t :=
  ⟨tempo.trans h.defaultTempo, shared.trans h.shared⟩

theorem openLog (h : Configured options s) : Configured options (Session.openLog options s) := by
  obtain ⟨log, shared, eq, both⟩ := Session.openLog_eq options s
  rw [eq]
  exact h.of_eq rfl both

theorem debug (h : Configured options s) (text : String) :
    Configured options (Session.debug options text s) := by
  unfold Session.debug Studio.debug
  split
  · split
    · exact h.of_eq rfl (by simp)
    · exact h.of_eq rfl rfl
  · exact h

theorem resetTrack (h : Configured options s) : Configured options s.resetTrack :=
  h.of_eq rfl (by simp [Studio.resetTrack])

theorem abort (h : Configured options s) (e : Failure) :
    Configured options (Session.abort options e s) := by
  unfold Session.abort
  cases Session.abortNote e with
  | none => exact h.resetTrack
  | some text => exact (h.debug text).resetTrack

/-- With the track file reset and nothing in the history, everything agrees. -/
theorem cleared (h : Configured options s) :
    Recorded options s.console.toList (Session.cleared s) where
  defaultTempo := h.defaultTempo
  shared := h.resetTrack.shared
  shown := by
    refine ⟨[], [], ?_, (List.append_nil _).symm, rfl⟩
    rw [show (Session.cleared s).events = [] from Ghost.get_of _]
    exact h.defaultTempo ▸ .of_reset s.track
  bytes := by
    intro _ f hf
    obtain ⟨g, -, rfl⟩ := Option.map_eq_some_iff.1 hf
    exact ⟨Track.sentinel, rfl, rfl⟩

/-- How the run of any tree ends, well formed or not. -/
theorem run_ends {session : Session} (h : Configured session.options session.studio)
    (ok : session.options.Accepted) (fuel : Nat) (program : Node) :
    match session.run fuel program with
    | (.done _, after) => ∃ t, Recorded session.options session.studio.console.toList t ∧
        after.studio = t.closeLog
    | (.failed e, after) => ∃ t, Configured session.options t ∧
        after.studio = (Session.abort session.options e t).closeLog
    | (.unfinished, after) => Configured session.options after.studio := by
  have opened : Recorded session.options session.studio.console.toList
      (Session.cleared (Session.openLog session.options session.studio)) := by
    have console : (Session.openLog session.options session.studio).console =
        session.studio.console := by
      obtain ⟨log, shared, eq, -⟩ := Session.openLog_eq session.options session.studio
      rw [eq]
    exact console ▸ h.openLog.cleared
  cases program with
  | program decls functions =>
      have ends := (recording.launched decls functions).run_ends ok fuel opened
      rcases e : session.run fuel (.program decls functions) with ⟨v | e | _, after⟩ <;>
        rw [e] at ends
      · exact ends.2
      · exact ends
      · exact ends
  | _ =>
      rw [Session.run_eq ok]
      exact ⟨_, opened.toConfigured, rfl⟩

theorem run {session : Session} (h : Configured session.options session.studio)
    (ok : session.options.Accepted) (fuel : Nat) (program : Node) :
    Configured session.options (session.run fuel program).2.studio := by
  have ends := h.run_ends ok fuel program
  rcases r : session.run fuel program with ⟨v | e | _, after⟩ <;> rw [r] at ends
  · obtain ⟨t, ht, same⟩ := ends
    exact same ▸ ht.toConfigured.of_eq rfl rfl
  · obtain ⟨t, ht, same⟩ := ends
    exact same ▸ (ht.abort e).of_eq rfl rfl
  · exact ends

theorem new (options : Options) (remains : Remains) :
    Configured options (Session.new options remains).studio := by
  refine ⟨rfl, ?_⟩
  show (if options.shared then some SharedFile.fresh else none).isSome = options.shared
  cases options.shared <;> rfl

end Configured

/-- A session stays as its options say, whatever is run in it. -/
theorem Configured.afterRuns (runs : List (Nat × Node)) (session : Session)
    (h : Configured session.options session.studio) (ok : session.options.Accepted) :
    Configured session.options (session.afterRuns runs).studio := by
  induction runs generalizing session with
  | nil => exact h
  | cons r rest ih =>
      obtain ⟨fuel, program⟩ := r
      have same := session.options_run fuel program
      have next : Configured (session.run fuel program).2.options
          (session.run fuel program).2.studio := same.symm ▸ h.run ok fuel program
      exact same ▸ ih _ next (same.symm ▸ ok)

end Cadence
