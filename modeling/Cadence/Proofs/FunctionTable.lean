/-
  The list of functions matters only as a table.

  A declaration that is followed by another of the same name is never called, and neither is one
  that has the name of a built-in function. Without them (`Node.effective`) the order of a list does
  not matter: every name that is looked up is found to be the same declaration. So a run ends in the
  same way with whatever list of functions has the same effective declarations
  (`run_functions_perm`), the table that it leaves behind aside.

  A list or an object is no name, and the first declaration with such a name ends the run. Where
  there are both, the message depends on the order (`run_functions_unnameable`).
-/
import Cadence.Proofs.Frames
import Cadence.Proofs.PairedRuns

namespace Cadence

/-! ## Declarations by name -/

/-- The name of a built-in function has no other spelling. -/
theorem Builtin.named?_congr {m n : Name} (same : m.key = n.key) : named? m = named? n := by
  cases m with
  | text s => rw [Name.key_text.1 same.symm]
  | _ =>
      cases n with
      | text t => cases Name.key_text.1 same
      | _ => rfl

namespace Node

/-- Whether a declaration is found under a name. -/
def isNamed (n : Name) (f : Node) : Bool := f.declaredName?.any fun m => m.same n

/-- Whether a declaration has the name of a built-in function. -/
def isHidden (f : Node) : Bool := (f.declaredName?.bind Builtin.named?).isSome

/-- Whether two declarations have the same name. What is no name is compared by value. -/
def sameName (f g : Node) : Bool :=
  match f.declaredName?, g.declaredName? with
  | some m, some n => m.same n
  | none, none =>
      match f.nameField, g.nameField with
      | .ok i, .ok j => i.alike j
      | _, _ => false
  | _, _ => false

/-- The declarations that can be called: those that no later one replaces and that no built-in
    function hides. -/
def effective : List Node → List Node
  | [] => []
  | f :: rest =>
      if f.isHidden || rest.any f.sameName then effective rest else f :: effective rest

def IsFunction (f : Node) : Prop := ∃ name params decls body, f = .funcDecl name params decls body

variable {n : Name} {f g : Node} {fs : List Node}

theorem isNamed_iff : f.isNamed n = true ↔ ∃ m, f.declaredName? = some m ∧ m.key = n.key := by
  unfold isNamed
  simp only [Option.any_eq_true, Name.same_iff]

/-- Declarations that are found under one name have the same name. -/
theorem sameName_iff (hf : f.isNamed n = true) : f.sameName g = true ↔ g.isNamed n = true := by
  obtain ⟨m, named, key⟩ := isNamed_iff.1 hf
  unfold sameName isNamed
  rw [named]
  cases g.declaredName? with
  | none => simp
  | some k =>
      rw [Option.any_some, Name.same_iff, Name.same_iff, key]
      exact eq_comm

/-- Nothing that is hidden is looked up. -/
theorem not_isHidden (hf : f.isNamed n = true) (visible : Builtin.named? n = none) :
    f.isHidden = false := by
  obtain ⟨m, named, key⟩ := isNamed_iff.1 hf
  unfold isHidden
  rw [named, Option.bind_some, Builtin.named?_congr key, visible]
  rfl

theorem effective_subset : ∀ {fs : List Node}, effective fs ⊆ fs
  | [] => List.Subset.refl _
  | f :: rest => by
      rw [effective]
      split
      · exact List.subset_cons_of_subset f effective_subset
      · exact List.cons_subset_cons f effective_subset

/-- Under a name that is looked up there is one effective declaration, the last that there is. -/
theorem filter_effective (visible : Builtin.named? n = none) : ∀ fs : List Node,
    (effective fs).filter (isNamed n) = (fs.reverse.find? (isNamed n)).toList
  | [] => rfl
  | f :: rest => by
      have ih := filter_effective visible rest
      have later : (rest.reverse.find? (isNamed n)).isSome = true ↔
          ∃ g ∈ rest, g.isNamed n = true := by
        simp only [List.find?_isSome, List.mem_reverse]
      rw [List.reverse_cons, List.find?_append, effective]
      by_cases hf : f.isNamed n = true
      · -- it is not hidden, so it is left out if a later declaration has its name
        have replaced : rest.any f.sameName = (rest.reverse.find? (isNamed n)).isSome := by
          rw [Bool.eq_iff_iff, later, List.any_eq_true]
          simp only [sameName_iff hf]
        rw [not_isHidden hf visible, Bool.false_or, replaced]
        cases found : rest.reverse.find? (isNamed n) with
        | none =>
            rw [found] at ih
            simp [hf, ih]
        | some g =>
            rw [found] at ih
            simp [ih]
      · have skipped : ([f] : List Node).find? (isNamed n) = none := by simp [hf]
        rw [skipped, Option.or_none]
        split
        · exact ih
        · rw [List.filter_cons_of_neg hf, ih]

/-- The order of effective declarations does not matter. -/
theorem find?_of_perm (visible : Builtin.named? n = none) {fs fs' : List Node}
    (perm : fs'.Perm (effective fs)) :
    fs'.reverse.find? (isNamed n) = fs.reverse.find? (isNamed n) := by
  have one := perm.filter (isNamed n)
  rw [filter_effective visible] at one
  rw [← List.head?_filter, List.filter_reverse]
  cases found : fs.reverse.find? (isNamed n) with
  | none =>
      rw [found] at one
      rw [one.eq_nil]
      rfl
  | some f =>
      rw [found] at one
      rw [List.perm_singleton.1 one]
      rfl

/-- A declaration without a proper name is not left out, or another one stays. -/
theorem exists_unnameable_effective : ∀ {fs : List Node}, (∃ f ∈ fs, f.declaredName? = none) →
    ∃ f ∈ effective fs, f.declaredName? = none
  | [], h => by simp at h
  | f :: rest, h => by
      rw [effective]
      split
      · next drop =>
          refine exists_unnameable_effective ?_
          obtain ⟨g, hg, none⟩ := h
          rcases List.mem_cons.1 hg with rfl | hg
          · have shown : g.isHidden = false := by simp [isHidden, none]
            rw [shown, Bool.false_or, List.any_eq_true] at drop
            obtain ⟨k, hk, same⟩ := drop
            refine ⟨k, hk, ?_⟩
            unfold sameName at same
            rw [none] at same
            cases named : k.declaredName? with
            | none => rfl
            | some m => simp [named] at same
          · exact ⟨g, hg, none⟩
      · obtain ⟨g, hg, none⟩ := h
        rcases List.mem_cons.1 hg with rfl | hg
        · exact ⟨g, List.mem_cons_self, none⟩
        · obtain ⟨k, hk, none⟩ := exists_unnameable_effective ⟨g, hg, none⟩
          exact ⟨k, List.mem_cons_of_mem f hk, none⟩

end Node

namespace Functions

theorem get?_insert (table : Functions) (m n : Name) (f : Node) :
    (table.insert m f).get? n = if m.key = n.key then some f else table.get? n := by
  induction table with
  | nil => simp only [insert, get?, Name.same_iff]
  | cons entry rest ih =>
      obtain ⟨k, g⟩ := entry
      rw [insert]
      by_cases first : k.key = m.key
      · rw [if_pos (Name.same_iff.2 first)]
        simp only [get?, Name.same_iff, first]
        split <;> rfl
      · rw [if_neg (mt Name.same_iff.1 first)]
        simp only [get?, Name.same_iff, ih]
        by_cases here : k.key = n.key
        · rw [if_pos here, if_pos here, if_neg fun e => first (here.trans e.symm)]
        · rw [if_neg here, if_neg here]

end Functions

/-! ## Declaring functions -/

namespace Session

variable {options : Options}

theorem debug_quiet (quiet : options.debugLevel ≤ 0) (text : String) (s : Studio) :
    debug options text s = s := by
  unfold debug
  exact if_neg (by omega)

theorem declareFunctions_cons (quiet : options.debugLevel ≤ 0) {f : Node} {name : Name}
    (named : (f.nameField >>= Operator.nameOf) = .ok name) (rest : List Node) (s : Studio) :
    declareFunctions options (f :: rest) s =
      declareFunctions options rest { s with functions := s.functions.insert name f } := by
  rw [declareFunctions, named]
  simp only [debug_quiet quiet, ite_self]
  rfl

/-- A table holds under each name what is declared last. -/
theorem declareFunctions_done (quiet : options.debugLevel ≤ 0) : ∀ (fs : List Node) (s : Studio),
    (∀ f ∈ fs, f.declaredName? ≠ none) →
    ∃ table, declareFunctions options fs s = (.done (), { s with functions := table }) ∧
      ∀ n, table.get? n = (fs.reverse.find? (Node.isNamed n)).or (s.functions.get? n)
  | [], s, _ => ⟨s.functions, rfl, fun _ => rfl⟩
  | f :: rest, s, h => by
      obtain ⟨hf, hrest⟩ := List.forall_mem_cons.1 h
      cases named : f.nameField >>= Operator.nameOf with
      | error e => exact absurd (by unfold Node.declaredName?; rw [named]; rfl) hf
      | ok name =>
          have declared : f.declaredName? = some name := by
            unfold Node.declaredName?
            rw [named]
            rfl
          obtain ⟨table, done, found⟩ := declareFunctions_done quiet rest
            { s with functions := s.functions.insert name f } hrest
          refine ⟨table, (declareFunctions_cons quiet named rest s).trans done, fun n => ?_⟩
          rw [found, List.reverse_cons, List.find?_append, Option.or_assoc, Functions.get?_insert]
          congr 1
          by_cases here : name.key = n.key
          · have isNamed : f.isNamed n = true := Node.isNamed_iff.2 ⟨name, declared, here⟩
            simp [isNamed, here]
          · have other : f.isNamed n = false := by
              unfold Node.isNamed
              rw [declared, Option.any_some]
              exact Bool.eq_false_iff.2 (mt Name.same_iff.1 here)
            simp [other, here]

theorem nameOf_eq_error {j : Json} (h : Name.ofJson? j = none) :
    Operator.nameOf j = .error (.defect (.notNameable j.kindName)) := by
  unfold Operator.nameOf
  rw [h]

theorem nameOf_eq_ok {j : Json} {name : Name} (h : Name.ofJson? j = some name) :
    Operator.nameOf j = .ok name := by
  unfold Operator.nameOf
  rw [h]

/-- The first declaration without a proper name is the end of it. -/
theorem declareFunctions_failed (quiet : options.debugLevel ≤ 0) : ∀ (fs : List Node) (s : Studio),
    (∀ f ∈ fs, f.IsFunction) → (∃ f ∈ fs, f.declaredName? = none) →
    ∃ f ∈ fs, ∃ j table, f.nameField = .ok j ∧ Name.ofJson? j = none ∧
      declareFunctions options fs s =
        (.failed (.defect (.notNameable j.kindName)), { s with functions := table })
  | [], _, _, h => by simp at h
  | f :: rest, s, functions, h => by
      obtain ⟨⟨j, params, decls, body, rfl⟩, hrest⟩ := List.forall_mem_cons.1 functions
      cases found : Name.ofJson? j with
      | none =>
          refine ⟨_, List.mem_cons_self, j, s.functions, rfl, found, ?_⟩
          rw [declareFunctions]
          show (Act.lift (Operator.nameOf j) >>= _) s = _
          rw [nameOf_eq_error found]
          rfl
      | some name =>
          have named : ((Node.funcDecl j params decls body).nameField >>= Operator.nameOf) =
              .ok name := nameOf_eq_ok found
          have later : ∃ f ∈ rest, f.declaredName? = none := by
            obtain ⟨g, hg, none⟩ := h
            rcases List.mem_cons.1 hg with rfl | hg
            · unfold Node.declaredName? at none
              rw [named] at none
              cases none
            · exact ⟨g, hg, none⟩
          obtain ⟨g, hg, i, table, field, no, failed⟩ := declareFunctions_failed quiet rest
            { s with functions := s.functions.insert name (.funcDecl j params decls body) }
            hrest later
          refine ⟨g, List.mem_cons_of_mem _ hg, i, table, field, no, ?_⟩
          exact (declareFunctions_cons quiet named rest s).trans failed

end Session

/-! ## Runs with two tables -/

/-- Two studios that differ in their tables of functions only. -/
def unlisted : Coupling := ⟨fun s t => ∃ functions, t = { s with functions }, True⟩

namespace unlisted

theorem even : unlisted.Even where
  track := by
    rintro s _ ⟨functions, rfl⟩
    rfl
  random := by
    rintro s _ ⟨functions, rfl⟩
    rfl
  noted := by
    rintro e s _ ⟨functions, rfl⟩
    exact ⟨functions, rfl⟩
  depth := by
    rintro d s _ ⟨functions, rfl⟩
    exact ⟨functions, rfl⟩
  printed := by
    rintro line s _ ⟨functions, rfl⟩
    exact ⟨functions, rfl⟩
  drawn := by
    rintro random s _ ⟨functions, rfl⟩
    exact ⟨functions, rfl⟩
  mixed := by
    rintro track f s _ ⟨functions, rfl⟩
    exact ⟨functions, rfl⟩

variable {options : Options} {table table' : Functions}

/-- Both tables give the same where they are looked into. -/
theorem kept (same : ∀ n, Builtin.named? n = none → table'.get? n = table.get? n)
    (quiet : options.debugLevel ≤ 0) :
    unlisted.Kept .anything (Session.context options table) (Session.context options table') where
  functions := same
  maxDepth := rfl
  nesting := rfl
  even := even
  debugged level text s t pos h := by
    have silent : ¬ level ≤ options.debugLevel := by omega
    show unlisted.studios (if level ≤ options.debugLevel then _ else s)
      (if level ≤ options.debugLevel then _ else t)
    rw [if_neg silent, if_neg silent]
    exact h
  written differ := absurd rfl differ

theorem debug_agrees (quiet : options.debugLevel ≤ 0) (text text' : String) (d : Int) :
    unlisted.Agrees .anything d (Act.modify (Session.debug options text))
      (Act.modify (Session.debug options text')) := by
  refine .modify (fun s t h => ?_) (Session.depth_debug options text)
    (Session.depth_debug options text')
  rw [Session.debug_quiet quiet, Session.debug_quiet quiet]
  exact h

/-- What a run does once its functions are declared. -/
theorem launch_ends (quiet : options.debugLevel ≤ 0) {s : Studio} (idle : s.depth = 0)
    (same : ∀ n, Builtin.named? n = none → table'.get? n = s.functions.get? n) (fuel : Nat)
    (decls : List Node) :
    unlisted.Ends 0 (Session.launch options fuel decls [] s)
      (Session.launch options fuel decls [] { s with functions := table' }) := by
  have main : table'.get? (.text "main") = s.functions.get? (.text "main") :=
    same (.text "main") (by decide)
  have abreast : unlisted.Abreast 0 s { s with functions := table' } :=
    ⟨⟨table', rfl⟩, idle, idle⟩
  have coupled := kept same quiet
  have kept := Invariant.anything_kept (Session.context options s.functions)
  show unlisted.Ends 0 ((Act.lift (Frame.declare [] decls) >>= _) s)
    ((Act.lift (Frame.declare [] decls) >>= _) { s with functions := table' })
  refine Coupling.Agrees.andThen (.lift _) (fun globals => ?_) _ _ trivial abreast
  dsimp only
  rw [main]
  cases found : s.functions.get? (.text "main") with
  | none => exact .fail _
  | some function =>
      have bodies := coupled.machine_onBodies kept trivial (Nat.le_refl fuel) 0 0
      have call : unlisted.Agrees .anything 0
          (Machine.callFunction (Session.context options s.functions) _ function [] globals) _ :=
        coupled.callFunction_agrees kept (kept.machine_respects fuel 0) bodies found (by simp)
          trivial
      refine (debug_agrees quiet _ _ 0).andThen fun _ => ?_
      refine call.andThen fun result => ?_
      refine (Coupling.Agrees.lift _).andThen fun text => ?_
      exact (debug_agrees quiet _ _ 0).andThen fun _ => .pure _

end unlisted

namespace Session

variable {options : Options}

theorem launch_of_declared {functions : List Node} {s t : Studio}
    (h : declareFunctions options functions s = (.done (), t)) (fuel : Nat) (decls : List Node) :
    launch options fuel decls functions s = launch options fuel decls [] t := by
  unfold launch
  show Act.bind _ _ s = Act.bind _ _ t
  unfold Act.bind
  rw [h]
  rfl

theorem launch_of_failed {functions : List Node} {s t : Studio} {e : Failure}
    (h : declareFunctions options functions s = (.failed e, t)) (fuel : Nat) (decls : List Node) :
    launch options fuel decls functions s = (.failed e, t) := by
  unfold launch
  show Act.bind _ _ s = _
  unfold Act.bind
  rw [h]

/-- Among some declarations there are one whose name is a list and one whose name is an object. -/
def Mixed (functions : List Node) : Prop :=
  (∃ f ∈ functions, ∃ items, f.nameField = .ok (.list items)) ∧
    ∃ f ∈ functions, ∃ fields, f.nameField = .ok (.object fields)

/-- How the work of two runs ends that have tables for the same functions. -/
inductive EndsAlike (functions : List Node) :
    Ending Value × Studio → Ending Value × Studio → Prop
  | done (v : Value) (s : Studio) (table : Functions) :
      EndsAlike functions (.done v, s) (.done v, { s with functions := table })
  | failed (e : Failure) (s : Studio) (table : Functions) :
      EndsAlike functions (.failed e, s) (.failed e, { s with functions := table })
  | unnameable (mixed : Mixed functions) (kind kind' : String) (s : Studio) (table : Functions) :
      EndsAlike functions (.failed (.defect (.notNameable kind)), s)
        (.failed (.defect (.notNameable kind')), { s with functions := table })
  | unfinished (s t : Studio) : EndsAlike functions (.unfinished, s) (.unfinished, t)

/-- Without debug messages the same is done with both tables. -/
theorem endsAlike_of_same (quiet : options.debugLevel ≤ 0) {s : Studio} (idle : s.depth = 0)
    {table' : Functions}
    (same : ∀ n, Builtin.named? n = none → table'.get? n = s.functions.get? n) (fuel : Nat)
    (decls functions : List Node) :
    EndsAlike functions (launch options fuel decls [] s)
      (launch options fuel decls [] { s with functions := table' }) := by
  have forth := unlisted.launch_ends quiet idle same fuel decls
  have back := unlisted.launch_ends (s := { s with functions := table' }) quiet idle
    (fun n visible => (same n visible).symm) fuel decls
  generalize launch options fuel decls [] s = p at forth back ⊢
  generalize launch options fuel decls [] { s with functions := table' } = q at forth back ⊢
  cases forth with
  | done v h =>
      obtain ⟨⟨table, rfl⟩, -, -⟩ := h
      exact .done v _ table
  | failed e h =>
      obtain ⟨⟨table, rfl⟩, -, -⟩ := h
      exact .failed e _ table
  | cut =>
      -- had the second run ended, so had the first
      cases back with
      | cut => exact .unfinished _ _

/-- What is no name is a list or an object. -/
theorem mixed_of_unnameable {functions : List Node} {f g : Node} {i j : Json} (hf : f ∈ functions)
    (hg : g ∈ functions) (first : f.nameField = .ok i) (second : g.nameField = .ok j)
    (no : Name.ofJson? i = none) (no' : Name.ofJson? j = none) :
    i.kindName = j.kindName ∨ Mixed functions := by
  cases i with
  | list items =>
      cases j with
      | list _ => exact .inl rfl
      | object fields => exact .inr ⟨⟨f, hf, items, first⟩, g, hg, fields, second⟩
      | _ => cases no'
  | object fields =>
      cases j with
      | list items => exact .inr ⟨⟨g, hg, items, second⟩, f, hf, fields, first⟩
      | object _ => exact .inl rfl
      | _ => cases no'
  | _ => cases no

theorem launch_endsAlike (quiet : options.debugLevel ≤ 0) {functions functions' : List Node}
    (declared : ∀ f ∈ functions, f.IsFunction) (perm : functions'.Perm (Node.effective functions))
    {s : Studio} (idle : s.depth = 0) (fuel : Nat) (decls : List Node) :
    EndsAlike functions (launch options fuel decls functions s)
      (launch options fuel decls functions' s) := by
  have sub : ∀ f ∈ functions', f ∈ functions :=
    fun f hf => Node.effective_subset (perm.subset hf)
  by_cases unnameable : ∃ f ∈ functions, f.declaredName? = none
  · have unnameable' : ∃ f ∈ functions', f.declaredName? = none := by
      obtain ⟨f, hf, none⟩ := Node.exists_unnameable_effective unnameable
      exact ⟨f, perm.symm.subset hf, none⟩
    obtain ⟨f, hf, i, table, first, no, failed⟩ :=
      declareFunctions_failed quiet functions s declared unnameable
    obtain ⟨g, hg, j, table', second, no', failed'⟩ :=
      declareFunctions_failed quiet functions' s (fun f hf => declared f (sub f hf)) unnameable'
    rw [launch_of_failed failed, launch_of_failed failed']
    rcases mixed_of_unnameable hf (sub g hg) first second no no' with kind | mixed
    · rw [← kind]
      exact .failed _ _ table'
    · exact .unnameable mixed _ _ _ table'
  · have nameable : ∀ f ∈ functions, f.declaredName? ≠ none :=
      fun f hf none => unnameable ⟨f, hf, none⟩
    obtain ⟨table, done, found⟩ := declareFunctions_done quiet functions s nameable
    obtain ⟨table', done', found'⟩ :=
      declareFunctions_done quiet functions' s fun f hf => nameable f (sub f hf)
    have same : ∀ n, Builtin.named? n = none → table'.get? n = table.get? n := by
      intro n visible
      rw [found, found', Node.find?_of_perm visible perm]
    rw [launch_of_declared done, launch_of_declared done']
    have idle : ({ s with functions := table } : Studio).depth = 0 := idle
    exact endsAlike_of_same quiet idle same fuel decls functions

theorem abort_quiet (quiet : options.debugLevel ≤ 0) (e : Failure) (s : Studio) :
    abort options e s = s.resetTrack := by
  unfold abort
  cases abortNote e with
  | none => rfl
  | some text => exact congrArg Studio.resetTrack (debug_quiet quiet text s)

/-- The same session but for the table of functions. -/
def SameButFunctions (a b : Session) : Prop :=
  ∃ functions, b = { a with studio := { a.studio with functions } }

end Session

/-! ## Order and number of declarations -/

/-- Only the effective declarations of a program count, in whatever order. -/
theorem run_functions_perm (session : Session) (quiet : session.options.debugLevel ≤ 0)
    (decls : List Node) {functions functions' : List Node}
    (declared : ∀ f ∈ functions, f.IsFunction)
    (perm : functions'.Perm (Node.effective functions)) (fuel : Nat) :
    let one := session.run fuel (.program decls functions)
    let other := session.run fuel (.program decls functions')
    (other.1 = one.1 ∨ Session.Mixed functions ∧ ∃ kind kind',
      one.1 = .failed (.defect (.notNameable kind)) ∧
      other.1 = .failed (.defect (.notNameable kind'))) ∧
    (one.1 ≠ .unfinished → one.2.SameButFunctions other.2) := by
  intro one other
  by_cases ok : session.options.Accepted
  · have idle : (Session.cleared (Session.openLog session.options session.studio)).depth = 0 := rfl
    have alike := Session.launch_endsAlike quiet declared perm idle fuel decls
    have first : one = _ := Session.run_eq ok fuel _
    have second : other = _ := Session.run_eq ok fuel _
    have start (fs : List Node) : Session.start session.options fuel (.program decls fs)
        (Session.openLog session.options session.studio) =
        Session.launch session.options fuel decls fs
          (Session.cleared (Session.openLog session.options session.studio)) := rfl
    rw [start] at first second
    rw [first, second]
    generalize Session.launch session.options fuel decls functions _ = p at alike ⊢
    generalize Session.launch session.options fuel decls functions' _ = q at alike ⊢
    cases alike with
    | done v s table => exact ⟨.inl rfl, fun _ => ⟨table, rfl⟩⟩
    | failed e s table =>
        refine ⟨.inl rfl, fun _ => ⟨table, ?_⟩⟩
        dsimp only
        rw [Session.abort_quiet quiet, Session.abort_quiet quiet]
        rfl
    | unnameable mixed kind kind' s table =>
        exact ⟨.inr ⟨mixed, kind, kind', rfl, rfl⟩, fun _ => ⟨table, rfl⟩⟩
    | unfinished s t => exact ⟨.inl rfl, fun ended => absurd rfl ended⟩
  · have first : one = _ := Session.run_of_not_accepted ok fuel _
    have second : other = _ := Session.run_of_not_accepted ok fuel _
    rw [first, second]
    exact ⟨.inl rfl, fun _ => ⟨_, rfl⟩⟩

/-- A function declared twice, and one with the name of a built-in function, which is not called. -/
theorem run_functions_perm_redeclared :
    let give (n : Int) := Node.returnStmt (.literal (.plain (.int n)) (.text "int"))
    let call (name : String) := Node.call (.text name) []
    let main := Node.funcDecl (.text "main") [] [] [.returnStmt (call "f")]
    let f (n : Int) := Node.funcDecl (.text "f") [] [] [give n]
    let length := Node.funcDecl (.text "length") [] [] [give 3]
    let one := (Session.new {}).run 20 (.program [] [f 1, main, length, f 2])
    let other := (Session.new {}).run 20 (.program [] [f 2, main])
    [f 2, main].Perm (Node.effective [f 1, main, length, f 2]) ∧ one.1.isDone = true ∧
      other.1 = one.1 ∧ one.2.SameButFunctions other.2 := by
  intro give call main f length one other
  have done : one.1.isDone = true := by decide +kernel
  have effective : Node.effective [f 1, main, length, f 2] = [main, f 2] := by rfl
  have perm : [f 2, main].Perm (Node.effective [f 1, main, length, f 2]) := by
    rw [effective]
    exact .swap _ _ _
  have declared : ∀ g ∈ [f 1, main, length, f 2], g.IsFunction := by
    simp [Node.IsFunction, f, main, length]
  have alike := run_functions_perm (Session.new {}) (by decide) [] declared perm 20
  refine ⟨perm, done, ?_, alike.2 (Ending.ne_unfinished done)⟩
  rcases alike.1 with same | ⟨-, kind, kind', failed, -⟩
  · exact same
  · have failed : one.1 = _ := failed
    rw [failed] at done
    cases done

/-- An object and a list in place of names. -/
theorem run_functions_unnameable :
    let first := Node.funcDecl (.object []) [] [] []
    let second := Node.funcDecl (.list []) [] [] []
    [second, first].Perm (Node.effective [first, second]) ∧
      ((Session.new {}).run 20 (.program [] [first, second])).1 =
        .failed (.defect (.notNameable "dict")) ∧
      ((Session.new {}).run 20 (.program [] [second, first])).1 =
        .failed (.defect (.notNameable "list")) := by
  intro first second
  exact ⟨.swap _ _ _, rfl, rfl⟩

end Cadence
