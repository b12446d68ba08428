/-
  A track under any requests, in any order.

  Requests are answered one after another; one that fails ends nothing. What stands in the file at
  any time are the lines of the mixdowns that succeeded since it was last cleared, by a reset or by
  a mixdown with invalid arguments, under the tempo that the first of them found
  (`answerAll_agrees`). Every other failure leaves the track as it was.

  `Agrees` is what every single answer keeps true of the log of requests and the track.
-/
import Mathlib.Data.List.DropRight
import Cadence.Proofs.TrackFile

namespace Cadence

/-! ## Values that cannot be written

  Whatever is wrong with a value, it is not the fault of invalid arguments. -/

/-- A text, or a failure of another kind than that of invalid arguments. -/
abbrev Writes {α : Type} (r : Except Failure α) : Prop :=
  Yields (fun _ => True) (fun e => Track.isInvalid e = false) r

theorem joinTexts_writes (separator : String) (items : List Json) :
    Writes (joinTexts separator items) := by
  have texts : ∀ position, Writes (joinTexts.texts position items) := by
    induction items with
    | nil => exact fun _ => .ok trivial
    | cons item rest ih =>
        intro position
        cases item with
        | text s => exact (ih _).map fun _ _ _ => trivial
        | _ => exact .error rfl
  exact (texts 0).map fun _ _ _ => trivial

namespace Value

theorem Room.enter_writes (room : Room) : Writes room.enter := by
  unfold Room.enter
  split
  · exact .ok trivial
  · exact .error rfl
  · exact .ok trivial

mutual
theorem serialized_writes (room : Room) : ∀ v : Value, Writes (v.serialized room)
  | .sound s => by
      rw [serialized]
      exact (joinTexts_writes ", " s.pitches).map fun _ _ _ => trivial
  | .array ⟨items⟩ => by
      rw [serialized]
      refine room.enter_writes.bind fun inside _ _ => ?_
      exact (serializedItems_writes inside items).bind fun _ _ _ => .ok trivial
  | .int _ | .double _ | .bool _ | .pitch _ | .ref .. | .foreign _ => by
      rw [serialized]
      · exact .error rfl
      all_goals nofun

theorem serializedItems_writes (room : Room) : ∀ vs : List Value, Writes (serializedItems room vs)
  | [] => by
      rw [serializedItems]
      exact .ok trivial
  | v :: vs => by
      rw [serializedItems]
      refine (serialized_writes room v).bind fun _ _ _ => ?_
      exact (serializedItems_writes room vs).bind fun _ _ _ => .ok trivial
end

end Value

/-! ## Requests -/

namespace Track

/-- What may be asked of a track. -/
inductive Request where
  | reset
  | setTempo (tempo : Int)
  | mixdown (room : Value.Room) (args : List Value)

/-- The number of the track that was mixed down, nothing, or a failure. -/
abbrev Answer := Except Failure (Option Int)

/-- The answer to a request, and the track after it. -/
def answer (t : Track) : Request → Answer × Track
  | .reset => (.ok none, t.reset)
  | .setTempo tempo =>
      match t.setTempo tempo with
      | .ok u => (.ok none, u)
      | .error e => (.error e, t)
  | .mixdown room args =>
      match t.mixdown room args with
      | (.ok n, u) => (.ok (some n), u)
      | (.error e, u) => (.error e, u)

/-- The log of requests that are made in order, and the track after them. -/
def answerAll (t : Track) : List Request → List (Request × Answer) × Track
  | [] => ([], t)
  | r :: rest =>
      let (a, u) := t.answer r
      let (log, v) := u.answerAll rest
      ((r, a) :: log, v)

/-- A reset, or a mixdown with invalid arguments. -/
def clears : Request × Answer → Bool
  | (.reset, _) => true
  | (.mixdown .., .error e) => isInvalid e
  | _ => false

/-- The arguments of a mixdown that succeeded, and the number of its track. -/
def mixed? : Request × Answer → Option (List Value × Int)
  | (.mixdown _ args, .ok (some n)) => some (args, n)
  | _ => none

/-- The mixdowns that succeeded since the file was last cleared. -/
def standing (log : List (Request × Answer)) : List (List Value × Int) :=
  (log.rtakeWhile fun entry => !clears entry).filterMap mixed?

theorem standing_concat (log : List (Request × Answer)) (entry : Request × Answer) :
    standing (log ++ [entry]) =
      if clears entry then [] else standing log ++ (mixed? entry).toList := by
  unfold standing
  cases h : clears entry with
  | true =>
      rw [List.rtakeWhile_concat_neg _ _ _ (by simp [h])]
      rfl
  | false =>
      rw [List.rtakeWhile_concat_pos _ _ _ (by simp [h]), List.filterMap_append]
      cases m : mixed? entry <;> simp [m]

/-! ## Single answers -/

theorem mixdown_eq_error {t u : Track} {room : Value.Room} {args : List Value} {e : Failure}
    (h : t.mixdown room args = (.error e, u)) : u = if isInvalid e then t.reset else t := by
  unfold mixdown at h
  split at h
  · cases h
    rfl
  · next v number _ =>
      split at h
      · next e' failed =>
          cases h
          simp [(v.serialized_writes room).of_error failed]
      · cases h

/-- What an answer can be: the file is cleared, a line is added, the tempo is changed before there
    is a line, or a failure changes nothing. -/
theorem answer_cases (t : Track) (r : Request) :
    (clears (r, (t.answer r).1) = true ∧ (t.answer r).2 = t.reset) ∨
    (∃ room args n text, r = .mixdown room args ∧ IsLine args n (line n text) ∧
      t.answer r = (.ok (some n), t.emit n text)) ∨
    (∃ tempo, r = .setTempo tempo ∧ t.emitted = false ∧
      t.answer r = (.ok none, { t with tempo })) ∨
    ∃ e, clears (r, .error e) = false ∧ t.answer r = (.error e, t) := by
  cases r with
  | reset => exact .inl ⟨rfl, rfl⟩
  | setTempo tempo =>
      cases h : t.emitted with
      | true => exact .inr (.inr (.inr ⟨.fault .tempoFixed, rfl, by simp [answer, setTempo, h]⟩))
      | false => exact .inr (.inr (.inl ⟨tempo, rfl, rfl, by simp [answer, setTempo, h]⟩))
  | mixdown room args =>
      rcases h : t.mixdown room args with ⟨e | n, u⟩
      · have same := mixdown_eq_error h
        cases invalid : isInvalid e with
        | true =>
            refine .inl ⟨?_, ?_⟩
            · simp [answer, h, clears, invalid]
            · simp [answer, h, same, invalid]
        | false =>
            refine .inr (.inr (.inr ⟨e, invalid, ?_⟩))
            simp [answer, h, same, invalid]
      · obtain ⟨text, isLine, rfl, -⟩ := mixdown_eq_ok h
        exact .inr (.inl ⟨room, args, n, text, rfl, isLine, by simp [answer, h]⟩)

/-- The track is as the log of its requests says. -/
def Agrees (log : List (Request × Answer)) (t : Track) : Prop :=
  ∃ lines, List.Forall₂ (fun m l => IsLine m.1 m.2 l) (standing log) lines ∧
    t.emitted = !lines.isEmpty ∧
    t.file = if lines = [] ∧ log.any clears = false then none else some (fileText t.tempo lines)

namespace Agrees

variable {log : List (Request × Answer)} {t u : Track} {r : Request} {a : Answer}

theorem new (configured : Int) : Agrees [] (Track.new configured) := ⟨[], .nil, rfl, rfl⟩

theorem cleared (h : clears (r, a) = true) (t : Track) : Agrees (log ++ [(r, a)]) t.reset := by
  refine ⟨[], ?_, rfl, ?_⟩
  · rw [standing_concat, if_pos h]
    exact .nil
  · simp [h, reset, fileText, sentinel]

theorem emit (agrees : Agrees log t) {room : Value.Room} {args : List Value} {n : Int}
    {text : String} (isLine : IsLine args n (line n text)) :
    Agrees (log ++ [(.mixdown room args, .ok (some n))]) (t.emit n text) := by
  obtain ⟨lines, rel, emitted, file⟩ := agrees
  refine ⟨lines ++ [line n text], ?_, by simp [Track.emit], ?_⟩
  · rw [standing_concat]
    exact List.rel_append rel (.cons isLine .nil)
  · rw [if_neg (by simp)]
    exact emit_file emitted (fun some => by rw [file, if_neg (by simp [some])]) n text

/-- What neither clears nor mixes down leaves the track, up to a tempo that no line depends on. -/
theorem other (agrees : Agrees log t) (quiet : clears (r, a) = false)
    (unmixed : mixed? (r, a) = none) {tempo : Int} (settled : t.emitted = true → tempo = t.tempo) :
    Agrees (log ++ [(r, a)]) { t with tempo } := by
  obtain ⟨lines, rel, emitted, file⟩ := agrees
  refine ⟨lines, ?_, emitted, ?_⟩
  · simpa [standing_concat, quiet, unmixed] using rel
  · have same : log.any clears = (log ++ [(r, a)]).any clears := by simp [quiet]
    rw [← same]
    cases lines with
    | nil => simpa [fileText] using file
    | cons l rest =>
        rw [settled (by simp [emitted])]
        exact file

/-- One request. -/
theorem answer (agrees : Agrees log t) (r : Request) :
    Agrees (log ++ [(r, (t.answer r).1)]) (t.answer r).2 := by
  obtain ⟨h, eq⟩ | ⟨_, _, _, _, rfl, isLine, eq⟩ | ⟨_, rfl, silent, eq⟩ | ⟨e, quiet, eq⟩ :=
    t.answer_cases r
  · rw [eq]
    exact cleared h t
  · rw [eq]
    exact agrees.emit isLine
  · rw [eq]
    exact agrees.other rfl rfl fun emitted => by rw [silent] at emitted; cases emitted
  · rw [eq]
    have unmixed : mixed? (r, .error e) = none := by cases r <;> rfl
    exact agrees.other quiet unmixed fun _ => rfl

/-- Any number of requests. -/
theorem answerAll (agrees : Agrees log t) (requests : List Request) :
    Agrees (log ++ (t.answerAll requests).1) (t.answerAll requests).2 := by
  induction requests generalizing log t with
  | nil => simpa [Track.answerAll] using agrees
  | cons r rest ih =>
      have later := ih (agrees.answer r)
      rwa [List.append_assoc] at later

end Agrees

end Track

end Cadence
