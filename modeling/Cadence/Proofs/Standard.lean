/-
  What the values of a run are like.

  A genuine value (`Value.Genuine`) has a kind at every level, its pitches are named by texts, and
  no array in it is empty; no reference stands anywhere in it. Such a value can be classified, and
  it can be written out if its arrays are not nested too deep. It is proper (`Value.Proper`) if its
  integers are 64-bit integers besides.

  A `Standard` says besides which pitch names and which lengths may occur. A value that meets it
  (`Value.Meets`) can also be given a default, and whatever is made from it meets the standard
  again.
-/
import Cadence.Proofs.Numbers
import Cadence.Value.Text

namespace Cadence

/-- The pitch names and the lengths of arrays that may occur in values. -/
structure Standard where
  pitch : String → Prop
  size : Nat → Prop
  /-- No pitch is read with a defect. -/
  regular : ∀ {name}, pitch name → Pitch.Regular name
  /-- Every pitch that has a semitone may occur. -/
  accepted : ∀ {name n}, Pitch.semitone name = .ok n → pitch name
  /-- Every length is an integer of the language. -/
  bounded : ∀ {n : Nat}, size n → n ≤ Integer.maxInt
  /-- Every length that an array can grow to may occur. -/
  allowed : ∀ {n}, n ≤ maxArrayLength → size n

variable {S : Standard}

structure Sound.Proper (s : Sound) : Prop where
  pitches : ∀ p ∈ s.pitches, ∃ name, p = .text name
  size : s.pitches.length ≤ Integer.maxInt
  amplitude : Integer.InRange s.amplitude

inductive Value.Genuine : Value → Prop
  | int (n : Int) : Genuine (.int n)
  | double (x : Float) : Genuine (.double x)
  | bool (b : Bool) : Genuine (.bool b)
  | pitch (name : String) : Genuine (.pitch (.text name))
  | sound {s : Sound} (names : ∀ p ∈ s.pitches, ∃ name, p = .text name) : Genuine (.sound s)
  | array {items : Array Value} (nonempty : 0 < items.size) (each : ∀ v ∈ items, Genuine v) :
      Genuine (.array items)

inductive Value.Proper : Value → Prop
  | int {n : Int} (range : Integer.InRange n) : Proper (.int n)
  | double (x : Float) : Proper (.double x)
  | bool (b : Bool) : Proper (.bool b)
  | pitch (name : String) : Proper (.pitch (.text name))
  | sound {s : Sound} (h : s.Proper) : Proper (.sound s)
  | array {items : Array Value} (nonempty : 0 < items.size)
      (size : items.size ≤ Integer.maxInt) (each : ∀ v ∈ items, Proper v) : Proper (.array items)

structure Sound.Meets (S : Standard) (s : Sound) : Prop where
  pitches : ∀ p ∈ s.pitches, ∃ name, p = .text name ∧ S.pitch name
  size : S.size s.pitches.length
  amplitude : Integer.InRange s.amplitude

inductive Value.Meets (S : Standard) : Value → Prop
  | int {n : Int} (range : Integer.InRange n) : Meets S (.int n)
  | double (x : Float) : Meets S (.double x)
  | bool (b : Bool) : Meets S (.bool b)
  | pitch {name : String} (h : S.pitch name) : Meets S (.pitch (.text name))
  | sound {s : Sound} (h : s.Meets S) : Meets S (.sound s)
  | array {items : Array Value} (nonempty : 0 < items.size) (size : S.size items.size)
      (each : ∀ v ∈ items, Meets S v) : Meets S (.array items)

/-- A kind of value is told by the names of its pitches and the lengths of its arrays. -/
structure Value.ToldBy (P : Value → Prop) (name : Json → Prop) (length : Nat → Prop) : Prop where
  int : ∀ {n}, P (.int n) ↔ Integer.InRange n
  double : ∀ x, P (.double x)
  pitch : ∀ {p}, P (.pitch p) ↔ name p
  sound : ∀ {s : Sound}, P (.sound s) ↔
    (∀ p ∈ s.pitches, name p) ∧ length s.pitches.length ∧ Integer.InRange s.amplitude
  array : ∀ {items}, P (.array items) ↔ 0 < items.size ∧ length items.size ∧ ∀ v ∈ items, P v
  bounded : ∀ {n : Nat}, length n → n ≤ Integer.maxInt
  one : length 1

theorem Value.Proper.toldBy :
    ToldBy Value.Proper (fun p => ∃ name, p = .text name) (· ≤ Integer.maxInt) where
  int := ⟨fun | .int range => range, .int⟩
  double := .double
  pitch := ⟨fun | .pitch name => ⟨name, rfl⟩, fun ⟨name, eq⟩ => eq ▸ .pitch name⟩
  sound := ⟨fun | .sound h => ⟨h.pitches, h.size, h.amplitude⟩, fun ⟨p, n, a⟩ => .sound ⟨p, n, a⟩⟩
  array := ⟨fun | .array n l each => ⟨n, l, each⟩, fun ⟨n, l, each⟩ => .array n l each⟩
  bounded := id
  one := by decide

theorem Value.Meets.toldBy (S : Standard) :
    ToldBy (Value.Meets S) (fun p => ∃ name, p = .text name ∧ S.pitch name) S.size where
  int := ⟨fun | .int range => range, .int⟩
  double := .double
  pitch := ⟨fun | .pitch h => ⟨_, rfl, h⟩, fun ⟨_, eq, h⟩ => eq ▸ .pitch h⟩
  sound := ⟨fun | .sound h => ⟨h.pitches, h.size, h.amplitude⟩, fun ⟨p, n, a⟩ => .sound ⟨p, n, a⟩⟩
  array := ⟨fun | .array n l each => ⟨n, l, each⟩, fun ⟨n, l, each⟩ => .array n l each⟩
  bounded := S.bounded
  one := S.allowed (by decide)

theorem Standard.pitch_C0 (S : Standard) : S.pitch "C0" :=
  S.accepted (n := 0) (Pitch.semitone_nameAt (k := 0) (by decide))

mutual
/-- How many arrays of a value are nested in one another. -/
def Value.height : Value → Nat
  | .array ⟨items⟩ => heightItems items + 1
  | _ => 0

def Value.heightItems : List Value → Nat
  | [] => 0
  | v :: vs => max v.height (heightItems vs)
end

/-- A failure for want of room. There is no such failure where room is not bounded. -/
def Value.Room.Lacks (room : Value.Room) (e : Failure) : Prop := room.isSome = true ∧ e.IsFault

/-- A failure for want of room for so many arrays in one another. -/
def Value.Room.Exceeded (room : Value.Room) (height : Nat) (e : Failure) : Prop :=
  e = .fault .nesting ∧ ∃ n, room = some n ∧ n < height

theorem Value.Room.Exceeded.lacks {room : Value.Room} {height : Nat} {e : Failure}
    (h : room.Exceeded height e) : room.Lacks e := by
  obtain ⟨rfl, n, rfl, -⟩ := h
  exact ⟨rfl, _, rfl⟩

theorem Value.Room.Exceeded.mono {room : Value.Room} {height height' : Nat} {e : Failure}
    (h : room.Exceeded height e) (le : height ≤ height') : room.Exceeded height' e := by
  obtain ⟨deep, n, eq, lt⟩ := h
  exact ⟨deep, n, eq, Nat.lt_of_lt_of_le lt le⟩

theorem Value.Proper.genuine {v : Value} (h : v.Proper) : v.Genuine := by
  induction h with
  | int => exact .int _
  | double x => exact .double x
  | bool b => exact .bool b
  | pitch name => exact .pitch name
  | sound h => exact .sound h.pitches
  | array nonempty _ _ ih => exact .array nonempty ih

/-- A value that meets a standard is a proper one. -/
theorem Value.Meets.proper {v : Value} (h : v.Meets S) : v.Proper := by
  induction h with
  | int range => exact .int range
  | double x => exact .double x
  | bool b => exact .bool b
  | pitch => exact .pitch _
  | @sound s h =>
      have texts : ∀ p ∈ s.pitches, ∃ name, p = .text name := by
        intro p hp
        obtain ⟨name, rfl, -⟩ := h.pitches p hp
        exact ⟨name, rfl⟩
      exact .sound ⟨texts, S.bounded h.size, h.amplitude⟩
  | array nonempty size _ ih => exact .array nonempty (S.bounded size) ih

theorem Value.joinTexts_yields (separator : String) {items : List Json} {E : Failure → Prop}
    (texts : ∀ j ∈ items, ∃ t, j = .text t) :
    Yields (fun _ => True) E (joinTexts separator items) := by
  have all : ∀ (l : List Json) (k : Nat), (∀ j ∈ l, ∃ t, j = .text t) →
      Yields (fun _ => True) E (joinTexts.texts k l) := by
    intro l
    induction l with
    | nil => exact fun _ _ => .ok trivial
    | cons j rest ih =>
        intro k h
        obtain ⟨t, rfl⟩ := h j List.mem_cons_self
        exact (ih (k + 1) fun j hj => h j (List.mem_cons_of_mem _ hj)).map fun _ _ _ => trivial
  exact (all items 0 texts).map fun _ _ _ => trivial

/-- Inside an array there is room for one less. -/
theorem Value.enter_yields (room : Room) (height : Nat) :
    Yields (fun inside => ∀ e, inside.Exceeded height e → room.Exceeded (height + 1) e)
      (room.Exceeded (height + 1)) room.enter := by
  match room with
  | none =>
      refine .ok ?_
      rintro e ⟨_, n, ⟨⟩, _⟩
  | some 0 => exact .error ⟨rfl, 0, rfl, Nat.succ_pos height⟩
  | some (n + 1) =>
      refine .ok ?_
      rintro e ⟨deep, _, ⟨⟩, lt⟩
      exact ⟨deep, n + 1, rfl, Nat.succ_lt_succ lt⟩

theorem Value.enter_safe (room : Room) : Safe room.enter fun _ => True :=
  ((enter_yields room 0).mono fun _ _ _ => trivial).weaken fun _ exceeded => exceeded.lacks.2

namespace Value.Genuine

mutual
theorem shown_yields {room : Room} : ∀ {v : Value}, v.Genuine →
    Yields (fun j => ∃ t, j = .text t) (room.Exceeded v.height) (v.shown room)
  | .array ⟨items⟩, .array _ each => by
      rw [shown, height]
      refine (enter_yields room (heightItems items)).bind fun inside _ within => ?_
      have texts : Yields _ (inside.Exceeded (heightItems items)) (shownItems inside items) :=
        shownItems_yields fun v hv => each v (by simpa using hv)
      refine (texts.weaken within).bind fun texts _ ht => ?_
      exact (joinTexts_yields "," ht).bind fun body _ _ => .ok ⟨_, rfl⟩
  | .sound s, .sound names => by
      have joined := joinTexts_yields ", " names (E := room.Exceeded (Value.sound s).height)
      rw [shown]
      exact (joined.map (R := fun _ => True) fun _ _ _ => trivial).map fun t _ _ => ⟨t, rfl⟩
  | .pitch (.text name), .pitch _ => by rw [shown]; exact .ok ⟨name, rfl⟩
  | .int _, _ | .double _, _ | .bool _, _ => by rw [shown]; exact .ok ⟨_, rfl⟩

theorem shownItems_yields {room : Room} : ∀ {vs : List Value}, (∀ v ∈ vs, v.Genuine) →
    Yields (fun ts => ∀ j ∈ ts, ∃ t, j = .text t) (room.Exceeded (heightItems vs))
      (shownItems room vs)
  | [], _ => by rw [shownItems]; exact .ok (by simp)
  | v :: vs, h => by
      rw [shownItems, heightItems]
      have first : Yields _ (room.Exceeded v.height) (shown room v) :=
        shown_yields (h v List.mem_cons_self)
      have others : Yields _ (room.Exceeded (heightItems vs)) (shownItems room vs) :=
        shownItems_yields fun w hw => h w (List.mem_cons_of_mem _ hw)
      refine (first.weaken fun _ h => h.mono (Nat.le_max_left _ _)).bind fun j _ hj => ?_
      refine (others.weaken fun _ h => h.mono (Nat.le_max_right _ _)).bind fun ts _ hts => ?_
      exact .ok (List.forall_mem_cons.2 ⟨hj, hts⟩)
end

theorem text_yields {room : Room} {v : Value} (h : v.Genuine) :
    Yields (fun _ => True) (room.Exceeded v.height) (v.text room) :=
  h.shown_yields.map fun _ _ _ => trivial

end Value.Genuine

namespace Value.Proper

/-! ## Kinds -/

theorem tag_eq {v : Value} (h : v.Proper) : ∃ t, v.tag = .ok t := by
  cases h <;> exact ⟨_, rfl⟩

theorem tag_safe {v : Value} (h : v.Proper) : Safe v.tag fun _ => True := by
  obtain ⟨t, ht⟩ := h.tag_eq
  rw [ht]
  exact .ok trivial

theorem nonempty {items : Array Value} (h : (Value.array items).Proper) : 0 < items.size := by
  cases h with | array nonempty => exact nonempty

theorem each {items : Array Value} (h : (Value.array items).Proper) {v : Value}
    (hv : v ∈ items) : v.Proper := by
  cases h with | array _ _ each => exact each v hv

/-- An array has a first item, and that has a kind. -/
theorem elementTag_eq {items : Array Value} (h : (Value.array items).Proper) :
    ∃ t, elementTag items = .ok t := by
  have nonempty := h.nonempty
  unfold elementTag
  rw [Array.getElem?_eq_getElem nonempty]
  exact (h.each (Array.getElem_mem nonempty)).tag_eq

/-! ## Texts -/

theorem text_yields {room : Room} {v : Value} (h : v.Proper) :
    Yields (fun _ => True) room.Lacks (v.text room) :=
  h.genuine.text_yields.weaken fun _ => Room.Exceeded.lacks

theorem texts_yields {room : Room} {vs : List Value} (h : ∀ v ∈ vs, v.Proper) :
    Yields (fun _ => True) room.Lacks (Value.texts room vs) := by
  have texts : Yields _ (room.Exceeded (heightItems vs)) (shownItems room vs) :=
    Genuine.shownItems_yields fun v hv => (h v hv).genuine
  exact (texts.weaken fun _ => Room.Exceeded.lacks).bind fun _ _ ht => joinTexts_yields ", " ht

theorem text_safe {room : Room} {v : Value} (h : v.Proper) : Safe (v.text room) fun _ => True :=
  h.text_yields.weaken fun _ => And.right

mutual
theorem serialized_safe {room : Room} : ∀ {v : Value}, v.Proper →
    Safe (v.serialized room) fun _ => True
  | .array ⟨items⟩, h => by
      have each : ∀ v ∈ items, v.Proper := fun v hv => h.each (by simpa using hv)
      rw [serialized]
      refine (enter_safe room).bind fun inside _ _ => ?_
      exact (serializedItems_safe each).bind fun _ _ _ => .ok trivial
  | .sound s, .sound h => by
      rw [serialized]
      exact (joinTexts_yields ", " h.pitches).map fun _ _ _ => trivial
  | .int _, _ | .double _, _ | .bool _, _ | .pitch _, _ => by
      simp only [serialized, tag]
      exact safe_fault _

theorem serializedItems_safe {room : Room} : ∀ {vs : List Value}, (∀ v ∈ vs, v.Proper) →
    Safe (serializedItems room vs) fun _ => True
  | [], _ => by rw [serializedItems]; exact .ok trivial
  | v :: vs, h => by
      rw [serializedItems]
      refine (serialized_safe (h v List.mem_cons_self)).bind fun _ _ _ => ?_
      refine (serializedItems_safe fun w hw => h w (List.mem_cons_of_mem _ hw)).bind ?_
      exact fun _ _ _ => .ok trivial
end

end Value.Proper

namespace Value.Meets

/-! ## Kinds and texts -/

theorem tag_eq {v : Value} (h : v.Meets S) : ∃ t, v.tag = .ok t := h.proper.tag_eq

theorem tag_safe {v : Value} (h : v.Meets S) : Safe v.tag fun _ => True := h.proper.tag_safe

theorem nonempty {items : Array Value} (h : (Value.array items).Meets S) : 0 < items.size :=
  h.proper.nonempty

theorem size {items : Array Value} (h : (Value.array items).Meets S) : S.size items.size := by
  cases h with | array _ size => exact size

theorem each {items : Array Value} (h : (Value.array items).Meets S) {v : Value}
    (hv : v ∈ items) : v.Meets S := by
  cases h with | array _ _ each => exact each v hv

theorem elementTag_safe {items : Array Value} (h : (Value.array items).Meets S) :
    Safe (elementTag items) fun _ => True := by
  obtain ⟨t, ht⟩ := h.proper.elementTag_eq
  rw [ht]
  exact .ok trivial

theorem text_yields {room : Room} {v : Value} (h : v.Meets S) :
    Yields (fun _ => True) room.Lacks (v.text room) :=
  h.proper.text_yields

theorem texts_yields {room : Room} {vs : List Value} (h : ∀ v ∈ vs, v.Meets S) :
    Yields (fun _ => True) room.Lacks (Value.texts room vs) :=
  Proper.texts_yields fun v hv => (h v hv).proper

theorem text_safe {room : Room} {v : Value} (h : v.Meets S) : Safe (v.text room) fun _ => True :=
  h.proper.text_safe

theorem texts_safe {room : Room} {vs : List Value} (h : ∀ v ∈ vs, v.Meets S) :
    Safe (Value.texts room vs) fun _ => True :=
  (texts_yields h).weaken fun _ => And.right

theorem serialized_safe {room : Room} {v : Value} (h : v.Meets S) :
    Safe (v.serialized room) fun _ => True :=
  h.proper.serialized_safe

/-! ## Making values -/

theorem default_safe (t : Tag) : Safe (Value.default t) (Value.Meets S) := by
  cases t with
  | int => exact .ok (.int (by decide))
  | double => exact .ok (.double 0)
  | bool => exact .ok (.bool false)
  | pitch => exact .ok (.pitch S.pitch_C0)
  | sound => exact .ok (.sound ⟨by simp, S.allowed (Nat.zero_le _), by decide⟩)
  | array => exact safe_fault _

theorem singleton {v : Value} (h : v.Meets S) : (Value.array #[v]).Meets S := by
  have short : 1 ≤ maxArrayLength := by decide
  refine .array Nat.one_pos (S.allowed short) fun w hw => ?_
  rw [List.mem_singleton.1 (Array.mem_toList_iff.2 hw)]
  exact h

/-- What fills a gap before a value. Arrays are not empty, so there is always a first item. -/
theorem defaultLike_safe {room : Room} : ∀ {v : Value}, v.Meets S →
    Safe (v.defaultLike room) (Value.Meets S)
  | .array ⟨[]⟩, h => absurd h.nonempty (by simp)
  | .array ⟨v :: vs⟩, h => by
      rw [defaultLike]
      refine (enter_safe room).bind fun inside _ _ => ?_
      refine (defaultLike_safe (h.each (v := v) (by simp))).bind fun d _ hd => ?_
      exact .ok hd.singleton
  | .int _, h | .double _, h | .bool _, h | .pitch _, h | .sound _, h => by
      rw [defaultLike]
      · exact h.tag_safe.bind fun t _ _ => default_safe t
      all_goals exact nofun

/-- An array of the items of a literal. -/
theorem ofItems_safe {vs : List Value} (h : ∀ v ∈ vs, v.Meets S) (size : S.size vs.length) :
    Safe (ofItems vs) (Value.Meets S) := by
  cases vs with
  | nil => exact safe_fault _
  | cons first rest =>
      have check : ∀ (expected : Tag) (l : List Value) (k : Nat), (∀ v ∈ l, v.Meets S) →
          Safe (ofItems.check expected k l) fun _ => True := by
        intro expected l
        induction l with
        | nil => exact fun _ _ => .ok trivial
        | cons v vs ih =>
            intro k hl
            refine (hl v List.mem_cons_self).tag_safe.bind fun got _ _ => ?_
            split
            · exact ih (k + 1) fun w hw => hl w (List.mem_cons_of_mem _ hw)
            · exact safe_fault _
      refine (h first List.mem_cons_self).tag_safe.bind fun expected _ _ => ?_
      refine (check expected rest 1 fun v hv => h v (List.mem_cons_of_mem _ hv)).bind ?_
      intro _ _ _
      exact .ok (.array (by simp) (by simpa using size) fun v hv => h v (by simpa using hv))

end Value.Meets

end Cadence
