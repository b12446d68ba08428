/-
  Runs of well-formed programs.

  Every environment that is reached, every value of an expression, every argument and every
  returned value meets the standard that the program's literals meet (`run_events_meet`). A run that
  ends returns such a value or ends with a fault, unless it calls `setPitches` with an array that
  begins with a pitch and holds something else; then it ends with a defect (`run_typeSafe`).

  Both follow from one invariant, `typed`.
-/
import Cadence.Proofs.Builtins
import Cadence.Proofs.Run
import Cadence.Proofs.WellFormed

namespace Cadence

variable {S : Standard}

/-! ## What has happened in a run -/

/-- Whatever an event is about meets the standard. -/
def Event.Meets (S : Standard) : Event → Prop
  | .reached env => env.Meets S
  | .yielded v env => v.Meets S ∧ env.Meets S
  | .returned v globals => v.Meets S ∧ globals.Meets S
  | .called _ args => ∀ v ∈ args, v.Meets S
  | .performed _ args => ∀ v ∈ args, v.Meets S

/-- The studio in a run of a well-formed program. -/
structure Orderly (S : Standard) (s : Studio) : Prop where
  functions : ∀ entry ∈ s.functions, entry.2.Function S
  events : ∀ e ∈ s.events, e.Meets S
  apart : ∀ e ∈ s.events, ¬ e.Clash

namespace Orderly

variable {s t : Studio}

theorem of_eq (h : Orderly S s) (functions : t.functions = s.functions)
    (history : t.history = s.history) : Orderly S t := by
  have events : t.events = s.events := congrArg Ghost.get history
  exact ⟨functions ▸ h.functions, events ▸ h.events, events ▸ h.apart⟩

theorem noted (h : Orderly S s) {e : Event} (he : e.Meets S) (apart : ¬ e.Clash) :
    Orderly S (s.noted e) where
  functions := h.functions
  events := by
    rw [Studio.events_noted]
    exact List.forall_mem_append.2 ⟨h.events, List.forall_mem_singleton.2 he⟩
  apart := by
    rw [Studio.events_noted]
    exact List.forall_mem_append.2 ⟨h.apart, List.forall_mem_singleton.2 apart⟩

theorem debugged (h : Orderly S s) (text : String) : Orderly S (s.debug text) := by
  unfold Studio.debug
  split <;> exact h.of_eq rfl rfl

end Orderly

/-- The invariant of a run of a well-formed program. A failure is a fault and nothing has clashed,
    or it is the defect of a clash. -/
def typed (S : Standard) : Invariant Unit where
  value := Value.Meets S
  env _ := Environment.Meets S
  globals := Frame.Meets S
  expr _ := Node.Expression S
  stmt _ := Node.Statement S
  studio := Orderly S
  failed e s := (∀ d ∈ s.events, d.Meets S) ∧
    (e.IsFault ∧ (∀ d ∈ s.events, ¬ d.Clash) ∨
      (∃ kind, e = .defect (.noPart kind "name")) ∧ ∃ d ∈ s.events, d.Clash)
  cut s := ∀ d ∈ s.events, d.Meets S

namespace typed

open Invariant

variable {α : Type}

theorem failed_of_fault {e : Failure} (fault : e.IsFault) {s : Studio} (hs : Orderly S s) :
    (typed S).failed e s :=
  ⟨hs.events, .inl ⟨fault, hs.apart⟩⟩

theorem allows_of_safe {r : Except Failure α} {Q : α → Prop} (h : Safe r Q) :
    (typed S).Allows r Q :=
  h.weaken fun _ fault _ hs => failed_of_fault fault hs

theorem lift_keeps {r : Except Failure α} {Q : α → Prop} (h : Safe r Q) :
    (typed S).Keeps (Act.lift r) Q :=
  Keeps.lift (allows_of_safe h)

/-! ## Built-in functions -/

theorem tolerates : (typed S).Tolerates where
  fault f _ hs := failed_of_fault ⟨f, rfl⟩ hs
  studio _ _ hs functions history := hs.of_eq functions history

/-- The one call of a built-in function that ends with a defect. -/
theorem perform_keeps_of_clash (room : Value.Room) {b : Builtin} {args : List Value}
    (h : ∀ v ∈ args, v.Meets S) (clash : (Event.performed b args).Clash) :
    (typed S).Keeps (b.perform room args) (Value.Meets S) := by
  obtain rfl := Event.Clash.eq_setPitches clash
  intro s hs
  obtain ⟨kind, e⟩ := Builtin.withPitches_eq_error clash
  have run : Builtin.setPitches.perform room args s =
      (.failed (.defect (.noPart kind "name")), s.noted (.performed .setPitches args)) := by
    show Act.lift (Builtin.withPitches args) (s.noted _) = _
    rw [e]
    rfl
  rw [run]
  have events := s.events_noted (.performed .setPitches args)
  refine ⟨?_, .inr ⟨⟨kind, rfl⟩, .performed .setPitches args, ?_, clash⟩⟩
  · rw [events]
    exact List.forall_mem_append.2 ⟨hs.events, List.forall_mem_singleton.2 h⟩
  · rw [events]
    simp

theorem perform_keeps (room : Value.Room) (b : Builtin) {args : List Value}
    (h : ∀ v ∈ args, v.Meets S) (arity : ∀ n, b.arity = some n → args.length = n) :
    (typed S).Keeps (b.perform room args) (Value.Meets S) := by
  by_cases clash : (Event.performed b args).Clash
  · exact perform_keeps_of_clash room h clash
  · have noted : (typed S).Keeps (Act.note (.performed b args)) fun _ => True :=
      Keeps.modify fun _ hs => hs.noted h clash
    have proper : ∀ v ∈ args, v.Proper := fun v hv => (h v hv).proper
    refine noted.bind fun _ _ => ?_
    refine (Builtin.call_keeps tolerates room b proper arity clash).mono fun v given => ?_
    exact given.closed (Value.Meets.toldBy S) h

/-! ## The rules of the language -/

theorem noted {e : Event} {s : Studio} (admitted : (typed S).Admits e) (hs : Orderly S s) :
    Orderly S (s.noted e) := by
  cases e with
  | reached env => exact hs.noted (admitted.elim fun _ h => h) id
  | yielded v env => exact hs.noted ⟨admitted.1, admitted.2.elim fun _ h => h⟩ id
  | returned v globals => exact hs.noted admitted id
  | called f args => exact hs.noted admitted id
  | performed => exact admitted.elim

theorem mem_of_get? {table : Functions} {name : Name} {n : Node} (h : table.get? name = some n) :
    ∃ entry ∈ table, entry.2 = n := by
  induction table with
  | nil => cases h
  | cons entry rest ih =>
      rw [Functions.get?] at h
      split at h
      · exact ⟨entry, List.mem_cons_self, Option.some.inj h⟩
      · obtain ⟨other, member, eq⟩ := ih h
        exact ⟨other, List.mem_cons_of_mem _ member, eq⟩

theorem forall_insert {P : Node → Prop} {table : Functions} {name : Name} {n : Node}
    (h : ∀ entry ∈ table, P entry.2) (hn : P n) : ∀ entry ∈ table.insert name n, P entry.2 := by
  induction table with
  | nil => exact List.forall_mem_singleton.2 hn
  | cons entry rest ih =>
      obtain ⟨he, hrest⟩ := List.forall_mem_cons.1 h
      rw [Functions.insert]
      split
      · exact List.forall_mem_cons.2 ⟨hn, hrest⟩
      · exact List.forall_mem_cons.2 ⟨he, ih hrest⟩

theorem kept {options : Options} {table : Functions}
    (wf : ∀ entry ∈ table, entry.2.Function S) :
    (typed S).Kept (Session.context options table) where
  fault f _ hs := failed_of_fault ⟨f, rfl⟩ hs
  cut _ hs := hs.events
  noted _ _ admitted hs := noted admitted hs
  debugged _ text _ hs := hs.debugged text
  depth _ _ hs := hs.of_eq rfl rfl
  depth_failed _ _ _ h := h
  depth_cut _ _ h := h
  expressions _ _ h := h.elim Node.Expression.expressions Node.Statement.expressions
  statements _ _ h := h.statements
  lookups _ _ h j hj := by
    obtain ⟨name, rfl⟩ := Node.lookups_texts h j hj
    exact .ok trivial
  notExpression _ _ h no := absurd h.isExpression (by simp [no])
  notStatement _ _ h no := absurd h.isStatement (by simp [no])
  falsity := .bool false
  tag _ hv := allows_of_safe hv.tag_safe
  text _ hv := allows_of_safe hv.text_safe
  texts _ hvs := allows_of_safe (Value.Meets.texts_safe hvs)
  literal _ _ _ h := by
    cases h with | literal h => exact allows_of_safe h.asLiteral_safe
  arrayLit _ _ _ h len each := by
    cases h with
    | arrayLit size => exact allows_of_safe (Value.Meets.ofItems_safe each (len ▸ size))
  binary _ _ _ _ _ _ h ha hb := by
    cases h with | binaryOp op => exact allows_of_safe (Operator.binary_safe op ha hb)
  unary _ _ _ _ h ha := by
    cases h with | unaryOp op => exact allows_of_safe (Operator.unary_safe op ha)
  element _ name index hv := allows_of_safe (Reference.elementAt_safe hv name index)
  globals _ _ h := h.globals
  withGlobals _ _ _ h hg := ⟨h.locals, hg⟩
  resolve _ _ name h := allows_of_safe (Reference.resolve_safe h name)
  checkAssignable name _ _ ha hb := allows_of_safe (Reference.checkAssignable_safe name ha hb)
  assignName _ _ _ _ name _ _ _ _ h _ _ hv := allows_of_safe (Reference.store_safe h name hv)
  replaceElement _ name index _ h hv :=
    allows_of_safe (Reference.replaceElement_safe h hv name index)
  assignIndex _ _ _ _ _ name _ _ _ _ _ _ h _ _ hv :=
    allows_of_safe (Reference.store_safe h name hv)
  bindElement _ _ _ _ _ _ array index _ _ _ _ h nonneg :=
    allows_of_safe (h.set_safe (.inr ⟨array, index, rfl, nonneg⟩))
  perform b _ each arity := perform_keeps _ b each arity
  activate name f params decls body vs g found len each hg := by
    obtain ⟨entry, member, eq⟩ := mem_of_get? found
    cases eq ▸ wf entry member with
    | funcDecl _ p d b =>
        refine allows_of_safe ((Frame.Meets.bindParams_safe p each .nil).bind fun bound _ hb => ?_)
        exact (hb.declare_safe d).mono fun locals _ hl => ⟨(), ⟨hl, hg⟩, b⟩
  notFunction name n found no := by
    obtain ⟨entry, member, eq⟩ := mem_of_get? found
    cases eq ▸ wf entry member with
    | funcDecl => exact (no _ _ _ _ rfl).elim

theorem launched {options : Options} {decls functions : List Node}
    (d : ∀ n ∈ decls, n.IsVariable) (f : ∀ n ∈ functions, n.Function S) :
    (typed S).Launched options decls functions where
  named n hn := by
    cases f n hn with | funcDecl name => exact allows_of_safe (Node.name_safe rfl)
  declared n hn name s hs := ⟨forall_insert hs.functions (f n hn), hs.events, hs.apart⟩
  globals := allows_of_safe (Frame.Meets.nil.declare_safe d)
  kept s hs := kept hs.functions

end typed

/-! ## Runs -/

theorem Session.events_debug (options : Options) (text : String) (s : Studio) :
    (debug options text s).events = s.events := by
  unfold debug Studio.debug
  split
  · split <;> rfl
  · rfl

/-- Failing adds nothing to what has happened. -/
theorem Session.events_abort (options : Options) (e : Failure) (s : Studio) :
    (abort options e s).events = s.events := by
  unfold abort
  cases abortNote e with
  | none => rfl
  | some text => exact events_debug options text s

theorem Orderly.cleared (s : Studio) : Orderly S (Session.cleared s) := by
  have events : (Session.cleared s).events = [] := Ghost.get_of _
  exact ⟨(fun _ h => nomatch h), by simp [events], by simp [events]⟩

/-- How the run of a well-formed program ends. -/
theorem Node.WellFormed.run_ends {program : Node} (wf : program.WellFormed S) {session : Session}
    (ok : session.options.Accepted) (fuel : Nat) :
    match session.run fuel program with
    | (.done v, after) => v.Meets S ∧ Orderly S after.studio
    | (.failed e, after) => (typed S).failed e after.studio
    | (.unfinished, after) => (typed S).cut after.studio := by
  cases wf with
  | program d f =>
      have ends := (typed.launched d f).run_ends ok fuel (Orderly.cleared _)
      rcases r : session.run fuel (.program _ _) with ⟨v | e | _, after⟩ <;> rw [r] at ends
      · obtain ⟨hv, t, ht, eq⟩ := ends
        exact ⟨hv, eq ▸ ht.of_eq rfl rfl⟩
      · obtain ⟨t, ht, eq⟩ := ends
        have events : after.studio.events = t.events := by
          rw [eq]
          exact Session.events_abort session.options e t
        dsimp only [typed] at ht ⊢
        rw [events]
        exact ht
      · exact ends

/-! ### Values -/

/-- Pitches that have a semitone, and arrays that are not too long. -/
def Standard.strict : Standard where
  pitch name := ∃ n, Pitch.semitone name = .ok n
  size n := n ≤ maxArrayLength
  regular := fun ⟨_, h⟩ => (Pitch.semitone_eq_ok h).1
  accepted h := ⟨_, h⟩
  bounded h := by
    have : (maxArrayLength : Int) ≤ Integer.maxInt := by decide
    omega
  allowed h := h

/-- Before a run is accepted nothing happens. -/
theorem Session.events_run_of_not_accepted {session : Session} (no : ¬ session.options.Accepted)
    (fuel : Nat) (program : Node) :
    (session.run fuel program).2.studio.events = session.studio.events := by
  obtain ⟨log, shared, eq, -⟩ := Session.openLog_eq session.options session.studio
  rw [run_of_not_accepted no, eq]
  rfl

theorem Session.events_afterRuns (runs : List (Nat × Node)) (session : Session)
    (no : ¬ session.options.Accepted) (empty : session.studio.events = []) :
    (session.afterRuns runs).studio.events = [] := by
  induction runs generalizing session with
  | nil => exact empty
  | cons r rest ih =>
      obtain ⟨fuel, program⟩ := r
      have same := session.options_run fuel program
      exact ih _ (same.symm ▸ no) ((events_run_of_not_accepted no fuel program).trans empty)

/-- In every environment that a run reaches, every binding meets the standard, and so does every
    value of an expression, every argument of a call and every returned value. That holds for any
    run of a well-formed program, however it ends and whatever was run before it. -/
theorem run_events_meet (options : Options) (remains : Remains) (earlier : List (Nat × Node))
    (fuel : Nat) {program : Node} (wf : program.WellFormed .strict) :
    ∀ e ∈ (((Session.new options remains).afterRuns earlier).run fuel program).2.studio.events,
      e.Meets .strict := by
  have same : ((Session.new options remains).afterRuns earlier).options = options :=
    Session.options_afterRuns earlier _
  by_cases ok : options.Accepted
  · generalize (Session.new options remains).afterRuns earlier = session at same ⊢
    have ends := wf.run_ends (same.symm ▸ ok) fuel
    rcases r : session.run fuel program with ⟨v | e | _, after⟩ <;> rw [r] at ends
    · exact ends.2.events
    · exact ends.1
    · exact ends
  · have fresh : (Session.new options remains).studio.events = [] := Ghost.get_of _
    have none := Session.events_afterRuns earlier (Session.new options remains) ok fresh
    rw [Session.events_run_of_not_accepted (same.symm ▸ ok), none]
    simp

/-- An array that grows by an assignment and is squared through a loop variable. -/
theorem run_events_meet_loop : ∃ program,
    program = Node.program []
      [.funcDecl (.text "main") []
        [.varDecl (.text "int[]") (.text "a"), .varDecl (.text "int") (.text "x")]
        [.exprStmt (.assign (.index (.text "a") [.literal (.plain (.int 2)) (.text "int")])
          (.literal (.plain (.int 4000000000)) (.text "int"))),
         .loopStmt (.text "x") (.text "a") (.block [.exprStmt (.assign (.ident (.text "x"))
           (.binaryOp (.text "*") (.ident (.text "x")) (.ident (.text "x"))))]),
         .returnStmt (.ident (.text "a"))]] ∧
    program.WellFormed .strict ∧
    (((Session.new {}).run 20 program).1 matches .done _) ∧
    ∀ e ∈ ((Session.new {}).run 20 program).2.studio.events, e.Meets .strict := by
  refine ⟨_, rfl, ?wf, by decide +kernel, run_events_meet {} {} [] 20 ?wf⟩
  refine .program (by simp) (List.forall_mem_singleton.2 (.funcDecl _ (by simp) ?_ ?_))
  · simp [Node.IsVariable]
  · simp only [List.forall_mem_cons, List.not_mem_nil, false_implies, implies_true, and_true]
    refine ⟨.exprStmt (.assign (.index _ ?_) ?_), .loopStmt _ _ (.block ?_), .returnStmt ?_⟩
    · exact List.forall_mem_singleton.2 (.literal (.int (by decide)))
    · exact .literal (.int (by decide))
    · refine List.forall_mem_singleton.2 (.exprStmt (.assign (.ident _) ?_))
      exact .binaryOp _ (.ident _) (.ident _)
    · exact List.forall_mem_singleton.2 (.ident _)

/-! ### Endings -/

/-- Pitch names that are read without a defect, and lists of any length that an integer of the
    language can give. -/
def Standard.loose : Standard where
  pitch := Pitch.Regular
  size n := (n : Int) ≤ Integer.maxInt
  regular h := h
  accepted h := (Pitch.semitone_eq_ok h).1
  bounded h := h
  allowed h := by
    have : (maxArrayLength : Int) ≤ Integer.maxInt := by decide
    omega

end Cadence
