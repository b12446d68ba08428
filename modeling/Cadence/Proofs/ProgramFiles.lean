/-
  Program files, and what the command line says about them.

  Decoding a JSON value gives a tree or a defect of one of three categories that the command line
  reports, whatever the value is: a missing key, a malformed content, a value of the wrong shape.
  There is one exception. A literal may hold a number that its kind has no room for, a whole number
  beyond all doubles or an infinite amplitude (`Json.HasOversized`), and that is an overflow, which
  is not reported.

  So with one argument, the name of a file, the command line says that the file is no valid
  program, and writes nothing, or it runs the program and tells of its failure, if there is one
  (`CommandLine.run_file`).
-/
import Cadence.CommandLine.Basic
import Cadence.Proofs.Codec

namespace Cadence

open Json (field?)

/-! ## Numbers that do not fit -/

namespace Json

/-- A whole number beyond all doubles. -/
def TooLarge (j : Json) : Prop := ∃ n : Int, j = .int n ∧ Double.overflow ≤ n.natAbs

/-- A number without an integer part. -/
def Infinite (j : Json) : Prop :=
  ∃ x : Float, j = .double x ∧ x.isNaN = false ∧ Double.truncate? x = none

/-- A literal of some kind whose value has a number that the kind has no room for. -/
def Oversized (value kind : Json) : Prop :=
  kind = .text "double" ∧ value.TooLarge ∨
  kind = .text "sound" ∧ ∃ parts, value = .object parts ∧
    ((∃ duration, field? "duration" parts = some duration ∧ duration.TooLarge) ∨
      ∃ amplitude, field? "amplitude" parts = some amplitude ∧ amplitude.Infinite)

/-- A JSON value stands somewhere in another. -/
inductive Within (j : Json) : Json → Prop
  | here : Within j j
  | item {items : List Json} {v : Json} (member : v ∈ items) (h : Within j v) :
      Within j (.list items)
  | field {fields : List (String × Json)} {key : String} {v : Json}
      (found : field? key fields = some v) (h : Within j v) : Within j (.object fields)

/-- Somewhere there is a literal with a number that does not fit. -/
def HasOversized (j : Json) : Prop :=
  ∃ fields value kind, (Json.object fields).Within j ∧
    field? "type" fields = some (.text "Literal") ∧ field? "value" fields = some value ∧
    field? "literal_type" fields = some kind ∧ Oversized value kind

theorem HasOversized.item {items : List Json} {v : Json} (h : v.HasOversized)
    (member : v ∈ items) : (Json.list items).HasOversized := by
  obtain ⟨fields, value, kind, within, rest⟩ := h
  exact ⟨fields, value, kind, .item member within, rest⟩

theorem HasOversized.field {fields : List (String × Json)} {key : String} {v : Json}
    (h : v.HasOversized) (found : field? key fields = some v) :
    (Json.object fields).HasOversized := by
  obtain ⟨inner, value, kind, within, rest⟩ := h
  exact ⟨inner, value, kind, .field found within, rest⟩

end Json

/-! ## Decoding -/

/-- A missing key, a malformed content or a value of the wrong shape. -/
def Defect.isOrdinary (d : Defect) : Bool :=
  match d.category with
  | .key | .value | .type => true
  | _ => false

/-- An ordinary defect, or an overflow, and then `P` holds. -/
def Refused (P : Prop) (e : Failure) : Prop :=
  ∃ d, e = .defect d ∧ (d.isOrdinary = true ∨ d.category = .overflow ∧ P)

namespace Refused

variable {P R : Prop}

theorem mono {e : Failure} (h : Refused P e) (sub : P → R) : Refused R e := by
  obtain ⟨d, rfl, ordinary | ⟨overflow, p⟩⟩ := h
  · exact ⟨d, rfl, .inl ordinary⟩
  · exact ⟨d, rfl, .inr ⟨overflow, sub p⟩⟩

theorem ordinary {α : Type} {Q : α → Prop} {d : Defect} (h : d.isOrdinary = true) :
    Yields Q (Refused P) (.error (.defect d)) := .error ⟨d, rfl, .inl h⟩

end Refused

/-- Whatever is decoded, decoding fails with an ordinary defect, or with an overflow if `P`. -/
abbrev Decodes {α : Type} (P : Prop) (r : Except Failure α) : Prop :=
  Yields (fun _ => True) (Refused P) r

namespace Decodes

variable {α β : Type} {P R : Prop} {r : Except Failure α}

theorem mono (h : Decodes P r) (sub : P → R) : Decodes R r := h.weaken fun _ e => e.mono sub

theorem next {f : α → Except Failure β} (h : Decodes P r) (rest : ∀ a, Decodes P (f a)) :
    Decodes P (r >>= f) := h.bind fun a _ _ => rest a

end Decodes

namespace Json

theorem toDouble_decodes (j : Json) : Decodes j.TooLarge j.toDouble := by
  cases j with
  | int n =>
      dsimp only [toDouble, Integer.toDouble]
      cases fits : Double.ofInt? n with
      | some x => exact Yields.ok trivial
      | none =>
          have large : Double.overflow ≤ n.natAbs := by
            unfold Double.ofInt? at fits
            split at fits
            · cases fits
            · omega
          exact Yields.error ⟨.intTooLarge, rfl, .inr ⟨rfl, n, rfl, large⟩⟩
  | double | bool => exact Yields.ok trivial
  | text s =>
      dsimp only [toDouble]
      cases Text.readDouble? s with
      | some x => exact Yields.ok trivial
      | none => exact Refused.ordinary rfl
  | null | list | object => exact Refused.ordinary rfl

theorem toInt_decodes (j : Json) : Decodes j.Infinite j.toInt := by
  cases j with
  | int | bool => exact Yields.ok trivial
  | double x =>
      dsimp only [toInt]
      cases whole : Double.truncate? x with
      | some n => exact Yields.ok trivial
      | none =>
          cases nan : x.isNaN with
          | true => exact Refused.ordinary rfl
          | false => exact Yields.error ⟨.infinityToInt, rfl, .inr ⟨rfl, x, rfl, nan, whole⟩⟩
  | text s =>
      dsimp only [toInt]
      cases Text.readInt s with
      | ok n => exact Yields.ok trivial
      | error problem => cases problem <;> exact Refused.ordinary rfl
  | null | list | object => exact Refused.ordinary rfl

/-- Only an object has parts. -/
theorem part_yields {P : Prop} (key : String) (j : Json) :
    Yields (fun v => ∃ fields, j = .object fields ∧ field? key fields = some v) (Refused P)
      (j.part key) := by
  cases j with
  | object fields =>
      dsimp only [part]
      cases found : field? key fields with
      | some v => exact Yields.ok ⟨fields, rfl, found⟩
      | none => exact Refused.ordinary rfl
  | _ => exact Refused.ordinary rfl

theorem iterated_decodes {P : Prop} (j : Json) : Decodes P j.iterated := by
  unfold iterated
  cases j.items? with
  | some items => exact Yields.ok trivial
  | none => exact Refused.ordinary rfl

end Json

theorem Literal.ofJson_decodes (value kind : Json) :
    Decodes (Json.Oversized value kind) (ofJson value kind) := by
  unfold ofJson
  split
  · exact Yields.ok trivial
  · have pitches : Decodes (Json.Oversized value (.text "sound"))
        (value.part "pitches" >>= Json.iterated) :=
      (Json.part_yields "pitches" value).bind fun v _ _ => v.iterated_decodes
    have duration : Decodes (Json.Oversized value (.text "sound"))
        (value.part "duration" >>= Json.toDouble) := by
      refine (Json.part_yields "duration" value).bind fun v _ ⟨parts, eq, found⟩ => ?_
      exact v.toDouble_decodes.mono fun large => .inr ⟨rfl, parts, eq, .inl ⟨v, found, large⟩⟩
    have amplitude : Decodes (Json.Oversized value (.text "sound"))
        (value.part "amplitude" >>= Json.toInt) := by
      refine (Json.part_yields "amplitude" value).bind fun v _ ⟨parts, eq, found⟩ => ?_
      exact v.toInt_decodes.mono fun inf => .inr ⟨rfl, parts, eq, .inr ⟨v, found, inf⟩⟩
    exact pitches.next fun _ => duration.next fun _ => amplitude.next fun _ => Yields.ok trivial
  · refine Yields.map (value.toDouble_decodes.mono fun large => ?_) fun _ _ _ => trivial
    exact .inl ⟨rfl, large⟩
  · exact Yields.ok trivial

namespace Node

/-- Whatever is smaller than some size decodes. -/
def DecodesBelow (size : Nat) : Prop := ∀ j, sizeOf j < size → Decodes j.HasOversized (ofJson j)

theorem ofItems_decodes {P : Prop} {items : List Json} (h : ∀ j ∈ items, Decodes P (ofJson j)) :
    Decodes P (ofItems items) := by
  induction items with
  | nil =>
      rw [ofItems]
      exact Yields.ok trivial
  | cons j rest ih =>
      obtain ⟨hj, hrest⟩ := List.forall_mem_cons.1 h
      rw [ofItems]
      exact hj.next fun _ => (ih hrest).next fun _ => Yields.ok trivial

theorem paramItems_decodes {P : Prop} {items : List Json}
    (h : ∀ j ∈ items, Decodes P (ofJson j)) : Decodes P (paramItems items) := by
  induction items with
  | nil =>
      rw [paramItems]
      exact Yields.ok trivial
  | cons j rest ih =>
      obtain ⟨hj, hrest⟩ := List.forall_mem_cons.1 h
      by_cases bare : ∃ name, j = .text name
      · obtain ⟨name, rfl⟩ := bare
        rw [paramItems]
        exact (ih hrest).next fun _ => Yields.ok trivial
      · rw [paramItems]
        · exact hj.next fun _ => (ih hrest).next fun _ => Yields.ok trivial
        · exact fun name e => bare ⟨name, e⟩

section

variable {j : Json} (below : DecodesBelow (sizeOf j))

include below

/-- The items of a list decode, as part of the list. -/
theorem DecodesBelow.items {items : List Json} (eq : j = .list items) :
    ∀ v ∈ items, Decodes j.HasOversized (ofJson v) := by
  subst eq
  intro v member
  have smaller : sizeOf v < sizeOf (Json.list items) := by
    have := List.sizeOf_lt_of_mem member
    simp only [Json.list.sizeOf_spec]
    omega
  exact (below v smaller).mono fun h => h.item member

theorem nodesOf_decodes : Decodes j.HasOversized (nodesOf j) := by
  cases j with
  | list items =>
      rw [nodesOf]
      exact ofItems_decodes (below.items rfl)
  | text s =>
      rw [nodesOf]
      split
      · exact Yields.ok trivial
      · exact Refused.ordinary rfl
  | object fields =>
      rw [nodesOf]
      split
      · exact Yields.ok trivial
      · exact Refused.ordinary rfl
  | _ =>
      simp only [nodesOf]
      exact Refused.ordinary rfl

theorem paramsOf_decodes : Decodes j.HasOversized (paramsOf j) := by
  cases j with
  | list items =>
      rw [paramsOf]
      exact paramItems_decodes (below.items rfl)
  | text s =>
      rw [paramsOf]
      exact Yields.ok trivial
  | object fields =>
      rw [paramsOf]
      exact Yields.ok trivial
  | _ =>
      simp only [paramsOf]
      exact Refused.ordinary rfl

end

section

variable {fields : List (String × Json)} (below : DecodesBelow (sizeOf fields)) (key : String)

theorem required_yields {P : Prop} :
    Yields (fun v => field? key fields = some v) (Refused P) (required fields key) := by
  unfold required
  cases found : field? key fields with
  | some v => exact Yields.ok rfl
  | none => exact Refused.ordinary rfl

include below

theorem DecodesBelow.of_field? {v : Json} (found : field? key fields = some v) :
    DecodesBelow (sizeOf v) :=
  fun j lt => below j (Nat.lt_trans lt (sizeOf_field?_lt found))

theorem DecodesBelow.field {v : Json} (found : field? key fields = some v) :
    Decodes (Json.object fields).HasOversized (ofJson v) :=
  (below v (sizeOf_field?_lt found)).mono fun h => h.field found

theorem DecodesBelow.fieldItems {v : Json} (found : field? key fields = some v) :
    Decodes (Json.object fields).HasOversized (nodesOf v) :=
  (nodesOf_decodes (below.of_field? key found)).mono fun h => h.field found

theorem node_decodes : Decodes (Json.object fields).HasOversized (node fields key) := by
  rw [node_eq]
  exact (required_yields key).bind fun _ _ found => below.field key found

theorem nodeOr_decodes : Decodes (Json.object fields).HasOversized (nodeOr fields key) := by
  rw [nodeOr_eq]
  cases found : field? key fields with
  | none => exact Yields.ok trivial
  | some v => exact below.field key found

theorem nodes_decodes : Decodes (Json.object fields).HasOversized (nodes fields key) := by
  rw [nodes_eq]
  exact (required_yields key).bind fun _ _ found => below.fieldItems key found

theorem nodesOr_decodes : Decodes (Json.object fields).HasOversized (nodesOr fields key) := by
  rw [nodesOr_eq]
  cases found : field? key fields with
  | none => exact Yields.ok trivial
  | some v => exact below.fieldItems key found

theorem paramsOr_decodes : Decodes (Json.object fields).HasOversized (paramsOr fields key) := by
  rw [paramsOr_eq]
  cases found : field? key fields with
  | none => exact Yields.ok trivial
  | some v =>
      exact (paramsOf_decodes (below.of_field? key found)).mono fun h => h.field found

end

/-- One case for each kind of node: its fields decode because they are smaller. -/
theorem object_decodes {fields : List (String × Json)} (below : DecodesBelow (sizeOf fields)) :
    Decodes (Json.object fields).HasOversized (ofJson (.object fields)) := by
  have field (key : String) : Decodes (Json.object fields).HasOversized (required fields key) :=
    (required_yields key).mono fun _ _ _ => trivial
  have one := node_decodes below
  have oneOr := nodeOr_decodes below
  have many := nodes_decodes below
  have manyOr := nodesOr_decodes below
  have made {n : Node} : Decodes (Json.object fields).HasOversized (pure n) := Yields.ok trivial
  rw [ofJson]
  split
  · exact (manyOr _).next fun _ => (manyOr _).next fun _ => made
  · exact (field _).next fun _ => (field _).next fun _ => made
  · exact (field _).next fun _ => made
  · refine (field _).next fun _ => (paramsOr_decodes below _).next fun _ => ?_
    exact (manyOr _).next fun _ => (manyOr _).next fun _ => made
  · exact (many _).next fun _ => made
  · exact (one _).next fun _ => (one _).next fun _ => (oneOr _).next fun _ => made
  · exact (one _).next fun _ => (one _).next fun _ => made
  · refine (oneOr _).next fun _ => (oneOr _).next fun _ => ?_
    exact (oneOr _).next fun _ => (one _).next fun _ => made
  · exact (field _).next fun _ => (field _).next fun _ => (one _).next fun _ => made
  · exact (oneOr _).next fun _ => made
  · exact (one _).next fun _ => made
  · exact (one _).next fun _ => (one _).next fun _ => made
  · exact (field _).next fun _ => (one _).next fun _ => (one _).next fun _ => made
  · exact (field _).next fun _ => (one _).next fun _ => made
  · next literal =>
      refine (required_yields "value").bind fun value _ hv => ?_
      refine (required_yields "literal_type").bind fun kind _ hk => ?_
      refine Decodes.next ((Literal.ofJson_decodes value kind).mono fun large => ?_) fun _ => made
      exact ⟨fields, value, kind, .here, literal, hv, hk, large⟩
  · exact (field _).next fun _ => made
  · exact (many _).next fun _ => made
  · exact (field _).next fun _ => (manyOr _).next fun _ => made
  · exact (field _).next fun _ => (many _).next fun _ => made
  · exact Refused.ordinary rfl

/-- Every JSON value decodes, or is refused. -/
theorem ofJson_decodes (j : Json) : Decodes j.HasOversized (ofJson j) := by
  -- a value is decoded through parts of smaller size
  have all : ∀ size, DecodesBelow size := by
    intro size
    induction size with
    | zero => exact fun j lt => absurd lt (Nat.not_lt_zero _)
    | succ size ih =>
        intro j lt
        cases j with
        | null =>
            rw [ofJson]
            exact Yields.ok trivial
        | object fields =>
            refine object_decodes fun v smaller => ih v ?_
            simp only [Json.object.sizeOf_spec] at lt
            omega
        | _ =>
            simp only [ofJson]
            exact Refused.ordinary rfl
  exact all (sizeOf j + 1) j (Nat.lt_succ_self _)

end Node

/-! ## Files -/

namespace CommandLine

theorem isReported_of_ordinary {d : Defect} (h : d.isOrdinary = true) :
    isReported (.defect d) = true := by
  unfold Defect.isOrdinary at h
  unfold isReported
  dsimp only
  split at h
  · next eq => rw [eq]
  · next eq => rw [eq]
  · next eq => rw [eq]
  · cases h

theorem ofFileText_yields (text : String) :
    Yields (fun _ => True) (fun e => isReported e = true) (Json.ofFileText text) := by
  unfold Json.ofFileText
  dsimp only
  split
  · exact .ok trivial
  · next problem _ =>
      refine .error ?_
      cases problem <;> rfl

/-- A failure to load a file: one that is reported, or an overflow, by a number in the file. -/
def Unloadable (text : String) (e : Failure) : Prop :=
  isReported e = true ∨ ∃ j d, Json.ofFileText text = .ok j ∧ j.HasOversized ∧ e = .defect d ∧
    d.category = .overflow

/-- An overflow is the one defect of a file that is not reported. -/
theorem ofFile_yields (path text : String) :
    Yields (fun _ => True) (Unloadable text) (Node.ofFile path text) := by
  refine ((ofFileText_yields text).weaken fun _ => .inl).bind fun j read _ => ?_
  have decodes : Yields (fun _ => True) (Unloadable text) (Node.ofJson j) := by
    refine (Node.ofJson_decodes j).weaken ?_
    rintro _ ⟨d, rfl, ordinary | ⟨overflow, large⟩⟩
    · exact .inl (isReported_of_ordinary ordinary)
    · exact .inr ⟨j, d, read, large, rfl, overflow⟩
  refine decodes.bind fun n _ _ => ?_
  split
  · exact .ok trivial
  · exact .error (.inl rfl)

/-! ## One argument -/

theorem Progress.take_program {p q : Progress} {o : Opt} {value : String}
    (h : p.take o value = .ok q) : q.program = p.program := by
  unfold take at h
  cases o with
  | help => cases h
  | verbose | trackFile =>
      cases h
      rfl
  | seed =>
      dsimp only at h
      split at h
      · cases h
        rfl
      · split at h
        · cases h
          rfl
        · cases h

theorem Progress.takeAll_program {uses : List (Opt × Option String)} : ∀ {p q : Progress},
    uses.foldlM (fun p (u : Opt × Option String) => p.take u.1 (u.2.getD "")) p = .ok q →
    q.program = p.program := by
  induction uses with
  | nil =>
      intro p q h
      cases h
      rfl
  | cons u rest ih =>
      intro p q h
      rw [List.foldlM_cons] at h
      obtain ⟨r, taken, h⟩ := bind_eq_ok.1 h
      exact (ih h).trans (take_program taken)

/-- An option alone is no program file. -/
theorem Progress.consume_option {p q : Progress} {s : String} {flag : Option (Opt × String)}
    {explicit : Option String} (h : p.consume [(s, .option flag explicit)] = .ok q) :
    q.program = p.program := by
  match flag, explicit with
  | none, _ =>
      simp only [consume] at h
      cases h
      rfl
  | some (o, spelling), none =>
      simp only [consume] at h
      split at h
      · cases h
      · obtain ⟨r, taken, h⟩ := bind_eq_ok.1 h
        cases h
        exact take_program taken
  | some (o, spelling), some value =>
      simp only [consume] at h
      split at h
      · cases h
      · obtain ⟨uses, -, h⟩ := bind_eq_ok.1 h
        obtain ⟨r, taken, h⟩ := bind_eq_ok.1 h
        cases h
        exact takeAll_program taken

/-- What a file alone asks for. -/
def Arguments.alone (file : String) : Arguments :=
  { program := file, verbosity := 0, trackFile := .unset, seed := .unset }

/-- One argument is the program file, or there is nothing to run. -/
theorem Arguments.ofList_singleton (file : String) :
    ofList [file] = .ok (alone file) ∨ ∃ stop, ofList [file] = .error stop := by
  by_cases separator : file = "--"
  · subst separator
    exact .inr ⟨_, rfl⟩
  · have items : tokens [file] = (tokenOf file).map fun t => [(file, t)] := by
      rw [tokens, tokens]
      · cases tokenOf file <;> rfl
      · exact separator
    unfold ofList
    rw [items]
    cases tokenOf file with
    | error stop => exact .inr ⟨stop, rfl⟩
    | ok token =>
        cases token with
        | other => exact .inl rfl
        | separator => exact .inr ⟨_, rfl⟩
        | option flag explicit =>
            show _ ∨ ∃ stop, (({} : Progress).consume [(file, .option flag explicit)] >>= _) = _
            cases used : ({} : Progress).consume [(file, .option flag explicit)] with
            | error stop => exact .inr ⟨stop, rfl⟩
            | ok p =>
                have none : p.program = none := Progress.consume_option used
                obtain ⟨program, verbosity, trackFile, seed, extras⟩ := p
                obtain rfl : program = .none := none
                exact .inr ⟨_, rfl⟩

/-! ## Reports -/

/-- Whether the arguments are wrong or ask for help, nothing is run. -/
theorem run_of_stop {args : List String} {stop : Stop} (h : Arguments.ofList args = .error stop)
    (place : Files → String → Place) (chance : Int) :
    ((run args place chance).exit = .status 0 ∨ (run args place chance).exit = .status 2) ∧
      (run args place chance).written = [] := by
  unfold run
  rw [h]
  cases stop with
  | help => exact ⟨.inl rfl, rfl⟩
  | usage message => exact ⟨.inr rfl, rfl⟩

/-- What is said of a run: nothing if it succeeds, and else how it failed. -/
def Reports (ending : Ending Value) (report : Report) : Prop :=
  match ending with
  | .done _ => report.exit = .status 0 ∧ report.err = ""
  | .failed e => report.exit = .status 1 ∧ report.err = s!"Runtime error: {e.report}\n"
  | .unfinished => report.exit = .unfinished

theorem session_reports (key : String) (program : Node) (seed : Int) :
    Reports ((Session.new { seed }).run Session.ample program).1 (session 0 key program seed) := by
  have quiet : Session.new
      { debugLevel := ((0 : Nat) : Int), seed, shared := 0 < 0 && key == debugFile } =
        Session.new { seed } := rfl
  unfold session
  rw [quiet]
  dsimp only
  rcases (Session.new { seed }).run Session.ample program with ⟨v | e | _, after⟩
  · exact ⟨rfl, rfl⟩
  · exact ⟨rfl, rfl⟩
  · rfl

/-- A program is run, if its tracks have a place. -/
theorem logged_reports (file : String) (place : Files → String → Place) (program : Node)
    (chance : Int) :
    let report := logged (.alone file) place program chance
    Reports ((Session.new { seed := chance }).run Session.ample program).1 report ∨
      ∃ d : Defect, report = { exit := .status 1, err := s!"Runtime error: {d.message}\n" } := by
  intro report
  have eq : report = perform (.alone file) [] place program chance := rfl
  rw [eq]
  unfold perform
  dsimp only [Arguments.alone, Setting.value?]
  split
  · exact .inl (session_reports _ program chance)
  · exact .inl (session_reports _ program chance)
  all_goals exact .inr ⟨_, rfl⟩

section

variable {file key text : String} {place : Files → String → Place} {chance : Int}
  (taken : Arguments.ofList [file] = .ok (.alone file)) (there : place [] file = .file key text)

include taken there

theorem run_of_ok {program : Node} (h : Node.ofFile (Path.normalize file) text = .ok program) :
    run [file] place chance = logged (.alone file) place program chance := by
  unfold run
  rw [taken]
  dsimp only [Arguments.alone]
  rw [there]
  dsimp only
  rw [h]

theorem run_of_error {e : Failure} (h : Node.ofFile (Path.normalize file) text = .error e) :
    run [file] place chance =
      if isReported e then
        { exit := .status 1
          err := s!"Error: {Path.normalize file} is not a valid program: {e.report}\n" }
      else { exit := .escaped e } := by
  unfold run
  rw [taken]
  dsimp only [Arguments.alone]
  rw [there]
  dsimp only
  rw [h]

end

/-- Decoding refuses a JSON value with an ordinary defect, unless a number in it does not fit. So of
    a file, given as the one argument, it is reported that it is no valid program, or how the run
    of the program failed, and nothing is written for a file that is no program. Only an overflow
    escapes. -/
theorem run_file (file : String) (place : Files → String → Place) (chance : Int)
    {key text : String} (there : place [] file = .file key text) :
    (∀ j, (∃ n, Node.ofJson j = .ok n) ∨ ∃ d, Node.ofJson j = .error (.defect d) ∧
      (d.isOrdinary = true ∨ d.category = .overflow ∧ j.HasOversized)) ∧
    let path := Path.normalize file
    let report := run [file] place chance
    -- the argument is not taken for a file
    ((∃ stop, Arguments.ofList [file] = .error stop) ∧
      (report.exit = .status 0 ∨ report.exit = .status 2) ∧ report.written = [] ∨
    (∃ e, Node.ofFile path text = .error e ∧ isReported e = true ∧
      report =
        { exit := .status 1, err := s!"Error: {path} is not a valid program: {e.report}\n" }) ∨
    (∃ j d, Json.ofFileText text = .ok j ∧ j.HasOversized ∧ d.category = .overflow ∧
      Node.ofFile path text = .error (.defect d) ∧ report = { exit := .escaped (.defect d) }) ∨
    ∃ program, Node.ofFile path text = .ok program ∧
      (Reports ((Session.new { seed := chance }).run Session.ample program).1 report ∨
        ∃ d : Defect,
          report = { exit := .status 1, err := s!"Runtime error: {d.message}\n" })) := by
  constructor
  · intro j
    cases decoded : Node.ofJson j with
    | ok n => exact .inl ⟨n, rfl⟩
    | error e =>
        obtain ⟨d, rfl, cause⟩ := (Node.ofJson_decodes j).of_error decoded
        exact .inr ⟨d, rfl, cause⟩
  · intro path report
    rcases Arguments.ofList_singleton file with taken | ⟨stop, refused⟩
    · refine .inr ?_
      cases decoded : Node.ofFile path text with
      | ok program =>
          have ran : report = _ := run_of_ok taken there decoded
          refine .inr (.inr ⟨program, rfl, ?_⟩)
          rw [ran]
          exact logged_reports file place program chance
      | error e =>
          have ended : report = _ := run_of_error taken there decoded
          rcases (ofFile_yields path text).of_error decoded with reported | overflow
          · exact .inl ⟨e, rfl, reported, ended.trans (if_pos reported)⟩
          · obtain ⟨j, d, read, large, rfl, category⟩ := overflow
            refine .inr (.inl ⟨j, d, read, large, category, rfl, ended.trans (if_neg ?_)⟩)
            simp [isReported, category]
    · exact .inl ⟨⟨stop, refused⟩, run_of_stop refused place chance⟩

/-- The text of a sound as loud as no integer. -/
def loudSound : String :=
  "\x7b\"type\":\"Literal\",\"literal_type\":\"sound\",\"value\":" ++
    "\x7b\"pitches\":[],\"duration\":1,\"amplitude\":1e400\x7d\x7d"

theorem ofFile_loudSound :
    Node.ofFile (Path.normalize "p.json") loudSound matches .error (.defect .infinityToInt) := by
  decide +kernel

theorem run_file_overflow :
    let place : Files → String → Place := fun _ _ => .file "p.json" loudSound
    place [] "p.json" = .file "p.json" loudSound ∧
      ∃ d, run ["p.json"] place 0 = { exit := .escaped (.defect d) } ∧ d.category = .overflow := by
  intro place
  have taken : Arguments.ofList ["p.json"] = .ok (.alone "p.json") := rfl
  have fails := ofFile_loudSound
  refine ⟨rfl, ?_⟩
  rcases (run_file "p.json" place 0 rfl).2 with
    ⟨⟨stop, no⟩, -⟩ | ⟨e, decoded, reported, -⟩ | ⟨j, d, -, -, category, -, report⟩ |
      ⟨program, decoded, -⟩
  · rw [taken] at no
    cases no
  · rw [decoded] at fails
    split at fails
    · next eq =>
        cases eq
        cases reported
    · cases fails
  · exact ⟨d, report, category⟩
  · rw [decoded] at fails
    cases fails

end CommandLine

end Cadence
