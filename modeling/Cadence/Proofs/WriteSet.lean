/-
  What a program never writes to.

  The names that a program writes to can be read off it: the targets of its assignments, and the
  variables and the arrays of its loops over arrays (`Node.Written`). Every other name keeps the
  value that it was given when its frame was made, in every environment that a run of a well-formed
  program reaches (`run_unwritten`).

  A write may end at a name that no assignment mentions, because it goes through references. But
  only loops make references, and only to their arrays, so whatever a reference names is written to
  by the program. That is part of what frames keep to (`Frame.Settled`).
-/
import Cadence.Proofs.Frames

namespace Cadence

/-! ## Names that are written to -/

namespace Node

/-- The names that a node may write to. -/
def writes : Node → List Json
  | .assign (.ident name) _ => [name]
  | .assign (.index array _) _ => [array]
  | .loopStmt var array _ => [var, array]
  | _ => []

/-- Some node in the whole may write to the name. -/
def Written (whole : Node) (name : Name) : Prop :=
  ∃ n j m, whole.Contains n ∧ j ∈ n.writes ∧ Operator.nameOf j = .ok m ∧ m.key = name.key

theorem Written.congr {whole : Node} {n m : Name} (same : n.key = m.key) :
    whole.Written n ↔ whole.Written m := by
  unfold Written
  rw [same]

theorem nameOf_text {j : Json} {s : String} (h : Operator.nameOf j = .ok (.text s)) :
    j = .text s := by
  cases j <;> cases h
  rfl

/-- What a declared variable starts with. -/
def declaredInitial? (n : Node) : Option Value :=
  (n.typeNameField >>= Frame.declaredType >>= DeclaredType.initial).toOption

end Node

/-! ## What a frame starts with -/

namespace Layout

/-- What a name is bound to when the frame is made: the last argument for it, or else the initial
    value of its first declaration. -/
def initial? (l : Layout) (name : Name) : Option Value :=
  (l.params.reverse.findSome? fun p =>
    if p.1.declaredName? = some name then some p.2 else none).or
  (l.vars.findSome? fun d =>
    if d.declaredName? = some name then d.declaredInitial? else none)

variable (params : List (Node × Value)) (vars : List Node)

theorem initial?_param (p : Node) (a : Value) (name : Name) :
    initial? ⟨params ++ [(p, a)], []⟩ name =
      if p.declaredName? = some name then some a else initial? ⟨params, []⟩ name := by
  unfold initial?
  rw [List.reverse_append, List.reverse_singleton, List.singleton_append, List.findSome?_cons]
  by_cases named : p.declaredName? = some name
  · simp [named]
  · simp [named]

theorem initial?_var (d : Node) (name : Name) :
    initial? ⟨params, vars ++ [d]⟩ name = (initial? ⟨params, vars⟩ name).or
      (if d.declaredName? = some name then d.declaredInitial? else none) := by
  unfold initial?
  rw [List.findSome?_append, List.findSome?_singleton, Option.or_assoc]

/-- No name starts with a reference. -/
theorem initial?_plain {l : Layout} (args : ∀ p ∈ l.params, p.2.isRef = false) {name : Name}
    {v : Value} (h : l.initial? name = some v) : v.isRef = false := by
  rcases Option.or_eq_some_iff.1 h with param | ⟨-, var⟩
  · obtain ⟨p, member, eq⟩ := List.exists_of_findSome?_eq_some param
    split at eq
    · cases eq
      exact args p (List.mem_reverse.1 member)
    · cases eq
  · obtain ⟨d, -, eq⟩ := List.exists_of_findSome?_eq_some var
    split at eq
    · unfold Node.declaredInitial? at eq
      cases made : d.typeNameField >>= Frame.declaredType >>= DeclaredType.initial with
      | error e => rw [made] at eq; cases eq
      | ok w =>
          rw [made] at eq
          cases eq
          obtain ⟨t, -, initial⟩ := bind_eq_ok.1 made
          exact Value.isRef_of_tag (DeclaredType.initial_tag initial)
    · cases eq

/-- Arguments are values. -/
theorem args_plain {S : Standard} {args : List Value} (each : ∀ v ∈ args, v.Meets S)
    (params : List Node) : ∀ p ∈ params.zip args, p.2.isRef = false :=
  fun p member => (each p.2 (List.of_mem_zip member).2).isRef

end Layout

namespace Frame

/-- Every name has the value that it starts with. -/
def Starts (l : Layout) (f : Frame) : Prop := ∀ name, f.get? name = l.initial? name

namespace Starts

variable {f g : Frame}

theorem nil : Starts ⟨[], []⟩ [] := fun _ => rfl

theorem bindParams {params : List Node} {args : List Value} {done : List (Node × Value)}
    (hp : ∀ p ∈ params, p.IsParameter) (h : f.Starts ⟨done, []⟩)
    (bound : f.bindParams params args = .ok g) : g.Starts ⟨done ++ params.zip args, []⟩ := by
  induction params generalizing args done f with
  | nil =>
      cases bound
      simpa using h
  | cons p params ih =>
      cases args with
      | nil =>
          cases bound
          simpa using h
      | cons a args =>
          obtain ⟨⟨s, typeName, rfl⟩, hparams⟩ := List.forall_mem_cons.1 hp
          let p := Node.funcParam (.text s) typeName
          have named : p.declaredName? = some (.text s) := rfl
          have inserted : (f.insert (.text s) a).Starts ⟨done ++ [(p, a)], []⟩ := by
            intro name
            rw [get?_insert, Layout.initial?_param, named, h name]
            simp only [Name.key_text, Option.some.injEq, eq_comm]
          have starts := ih hparams inserted bound
          rwa [List.append_assoc] at starts

theorem declare {params : List (Node × Value)} {vars done : List Node}
    (hd : ∀ d ∈ vars, d.IsVariable) (h : f.Starts ⟨params, done⟩)
    (declared : f.declare vars = .ok g) : g.Starts ⟨params, done ++ vars⟩ := by
  induction vars generalizing done f with
  | nil =>
      cases declared
      simpa using h
  | cons d vars ih =>
      obtain ⟨⟨typeName, s, rfl⟩, hvars⟩ := List.forall_mem_cons.1 hd
      let d := Node.varDecl (.text typeName) (.text s)
      have named : d.declaredName? = some (.text s) := rfl
      rw [List.append_cons]
      obtain ⟨name, eq, declared⟩ := bind_eq_ok.1 declared
      cases eq
      cases found : f.get? (.text s) with
      | some old =>
          rw [found] at declared
          refine ih hvars (fun name => ?_) declared
          rw [Layout.initial?_var, named, ← h name]
          by_cases here : Name.text s = name
          · rw [← here, found]
            rfl
          · simp [here]
      | none =>
          rw [found] at declared
          obtain ⟨v, initial, declared⟩ := bind_eq_ok.1 declared
          have initially : d.declaredInitial? = some v := by
            rw [Node.declaredInitial?, initial]
            rfl
          refine ih hvars (fun name => ?_) declared
          rw [← insert_new found, get?_insert, Layout.initial?_var, named, initially, ← h name]
          by_cases here : Name.text s = name
          · simp [← here, found]
          · simp [here, Name.key_text, Ne.symm here]

/-- The locals of a call start with its arguments and with the defaults of the variables. -/
theorem activate {S : Standard} {name : Json} {params vars body : List Node} {args : List Value}
    (wf : (Node.funcDecl name params vars body).Function S)
    (made : (Frame.bindParams [] params args >>= fun bound => bound.declare vars) = .ok f) :
    f.Starts ⟨params.zip args, vars⟩ := by
  obtain ⟨bound, binds, declares⟩ := bind_eq_ok.1 made
  cases wf with
  | funcDecl _ p d _ => exact (Starts.nil.bindParams p binds).declare d declares

end Starts

/-- A frame keeps what it started with under the names that the whole does not write to, and refers
    only to names that it does write to. -/
structure Settled (whole : Node) (l : Layout) (f : Frame) : Prop where
  unwritten : ∀ name, ¬ whole.Written name → f.get? name = l.initial? name
  refs : ∀ name array i, f.get? name = some (.ref array i) → whole.Written array

variable {whole : Node} {l : Layout} {f : Frame}

theorem Starts.plain (h : f.Starts l) (args : ∀ p ∈ l.params, p.2.isRef = false) {name : Name}
    {v : Value} (bound : f.get? name = some v) : v.isRef = false :=
  Layout.initial?_plain args ((h name).symm.trans bound)

theorem Starts.settled (h : f.Starts l) (args : ∀ p ∈ l.params, p.2.isRef = false) (whole : Node) :
    f.Settled whole l where
  unwritten name _ := h name
  refs name array i bound := by cases h.plain args bound

/-- Only names that are written to may be bound anew. -/
theorem Settled.insert (h : f.Settled whole l) {n : Name} {v : Value} (written : whole.Written n)
    (refers : ∀ array i, v = .ref array i → whole.Written array) :
    (f.insert n v).Settled whole l where
  unwritten name no := by
    have other : name.key ≠ n.key := fun same => no ((Node.Written.congr same).2 written)
    rw [get?_insert, if_neg other]
    exact h.unwritten name no
  refs name array i bound := by
    rw [get?_insert] at bound
    split at bound
    · exact refers array i (Option.some.inj bound)
    · exact h.refs name array i bound

end Frame

/-! ## Environments -/

namespace Environment

/-- An environment of a call in which every name that the program does not write to has the value
    that it had when its frame was made. -/
inductive Settled (decls functions : List Node) : Environment → Prop
  | call {name : Json} {params vars body : List Node} {args : List Value} {locals globals : Frame}
      (known : Node.funcDecl name params vars body ∈ functions)
      (l : locals.Settled (.program decls functions) ⟨params.zip args, vars⟩)
      (g : globals.Settled (.program decls functions) ⟨[], decls⟩) :
      Settled decls functions
        ⟨locals, globals, .of (some ⟨.funcDecl name params vars body, args⟩)⟩

variable {decls functions : List Node} {env env' : Environment}

theorem Settled.refs (h : env.Settled decls functions) {m array : Name} {i : Int}
    (bound : env.get? m = some (.ref array i)) : (Node.program decls functions).Written array := by
  cases h with
  | call _ l g =>
      rcases get?_cases bound with bound | ⟨-, bound⟩
      · exact l.refs m array i bound
      · exact g.refs m array i bound

theorem Settled.set (h : env.Settled decls functions) {n : Name} {v : Value}
    (written : (Node.program decls functions).Written n)
    (refers : ∀ array i, v = .ref array i → (Node.program decls functions).Written array)
    (set : env.set n v = .ok env') : env'.Settled decls functions := by
  obtain ⟨old, bound⟩ := bound_of_set set
  cases h with
  | call known l g =>
      rcases get?_cases bound with bound | ⟨outside, bound⟩
      · rw [set_local bound] at set
        cases set
        exact .call known (l.insert written refers) g
      · rw [set_global outside bound] at set
        cases set
        exact .call known l (g.insert written refers)

/-- A write through a name that the program writes to. -/
theorem Settled.store (h : env.Settled decls functions) {n : Name} {v : Value}
    (written : (Node.program decls functions).Written n) (plain : v.isRef = false)
    (stored : Reference.store env n v = .ok env') : env'.Settled decls functions := by
  obtain ⟨root, new, written, plain, set⟩ :=
    Reference.store_sets written (fun _ _ _ => h.refs) plain stored
  refine h.set written (fun array i eq => ?_) set
  rw [eq] at plain
  cases plain

end Environment

/-! ## Runs -/

/-- Whatever frames an event is about keep what the program does not write to. -/
def Event.Settled (decls functions : List Node) : Event → Prop
  | .reached env | .yielded _ env => env.Settled decls functions
  | .returned _ globals => globals.Settled (.program decls functions) ⟨[], decls⟩
  | .called .. | .performed .. => True

def settled (decls functions : List Node) : Layer where
  env := Environment.Settled decls functions
  globals := Frame.Settled (.program decls functions) ⟨[], decls⟩
  node := (Node.program decls functions).Contains
  function f := f ∈ functions

theorem settled_kept {S : Standard} {decls functions : List Node}
    (wf : ∀ f ∈ functions, f.Function S) : (settled decls functions).Kept (typed S) where
  parts := (shapes_kept wf).parts
  body := (shapes_kept wf).body
  globals _ h := by
    cases h with | call _ _ g => exact g
  withGlobals _ _ h hg := by
    cases h with | call known l _ => exact .call known l hg
  assignName _ j e _ _ name _ v inside named _ h _ _ hv stored := by
    have written : (Node.program decls functions).Written name :=
      ⟨_, j, name, inside, List.mem_cons_self, named, rfl⟩
    exact h.store written hv.isRef stored
  assignIndex _ _ j ns e _ _ name _ _ _ _ inside named _ h _ _ hv stored := by
    have written : (Node.program decls functions).Written name :=
      ⟨_, j, name, inside, List.mem_cons_self, named, rfl⟩
    exact h.store written hv.isRef stored
  bindElement _ j k body _ _ var array _ _ inside named named' _ _ h _ set := by
    have written : (Node.program decls functions).Written var :=
      ⟨_, j, var, inside, List.mem_cons_self, named, rfl⟩
    refine h.set written ?_ set
    rintro _ _ ⟨⟩
    exact ⟨_, k, array, inside, List.mem_cons_of_mem _ List.mem_cons_self, named', rfl⟩
  activate f params vars body vs g locals known _ each hg made := by
    have starts := Frame.Starts.activate (wf _ known) made
    exact .call known (starts.settled (Layout.args_plain each params) _) hg

/-- In every environment that a run of a well-formed program reaches, a name that is nowhere in the
    program the target of an assignment, nor the variable or the array of a loop, has the value that
    it started with: a global its default, a parameter its argument, and a variable of the function
    that is called its default. That holds however the run ends and whatever was run before it. -/
theorem run_unwritten (options : Options) (remains : Remains) (earlier : List (Nat × Node))
    (fuel : Nat) {S : Standard} {decls functions : List Node}
    (wf : (Node.program decls functions).WellFormed S) :
    ∀ e ∈ (((Session.new options remains).afterRuns earlier).run fuel
      (.program decls functions)).2.studio.events, e.Settled decls functions := by
  cases wf with
  | program d f =>
      have globals (g : Frame) (declared : Frame.declare [] decls = .ok g) :
          (settled decls functions).globals g :=
        (Frame.Starts.nil.declare d declared).settled (List.forall_mem_nil _) _
      intro e member
      have settled := Node.WellFormed.run_keeps_layer (.program d f) (settled_kept f)
        (fun _ known => known) globals options remains earlier fuel e member
      cases e <;> exact settled

/-- A function adds to a global that runs over the elements of an array meanwhile, so it changes the
    array without a mention of it. Nothing is written to its parameter. -/
theorem run_unwritten_alias : ∃ decls functions,
    decls = [Node.varDecl (.text "int[]") (.text "a"), .varDecl (.text "int") (.text "x")] ∧
    functions =
      [Node.funcDecl (.text "bump") [.funcParam (.text "k") (.text "int")] []
        [.exprStmt (.assign (.ident (.text "x"))
          (.binaryOp (.text "+") (.ident (.text "x")) (.ident (.text "k"))))],
       .funcDecl (.text "main") [] []
        [.loopStmt (.text "x") (.text "a")
          (.exprStmt (.call (.text "bump") [.literal (.plain (.int 5)) (.text "int")])),
         .returnStmt (.ident (.text "a"))]] ∧
    (Node.program decls functions).WellFormed .loose ∧
    ¬ (Node.program decls functions).Written (.text "k") ∧
    (((Session.new {}).run 20 (.program decls functions)).1 matches .done (.array #[.int 5])) ∧
    ∀ e ∈ ((Session.new {}).run 20 (.program decls functions)).2.studio.events,
      e.Settled decls functions := by
  refine ⟨_, _, rfl, rfl, ?wf, ?unwritten, by decide +kernel, run_unwritten {} {} [] 20 ?wf⟩
  case unwritten =>
    rintro ⟨n, j, m, inside, writes, named, key⟩
    obtain rfl := Name.key_text.1 key
    obtain rfl := Node.nameOf_text named
    revert writes
    revert n
    repeat' first
      | exact List.forall_mem_nil _
      | refine List.forall_mem_cons.2 ⟨?_, ?_⟩
      | refine Node.Contains.forall_of_parts (by simp [Node.writes]) ?_
  have var (t n : String) : (Node.varDecl (.text t) (.text n)).IsVariable := ⟨t, n, rfl⟩
  have param (n t : String) : (Node.funcParam (.text n) (.text t)).IsParameter := ⟨n, .text t, rfl⟩
  refine .program (by simp [var]) (List.forall_mem_cons.2 ⟨.funcDecl _ (by simp [param]) (by simp)
    ?bump, List.forall_mem_singleton.2 (.funcDecl _ (by simp) (by simp) ?main)⟩)
  case bump =>
    exact List.forall_mem_singleton.2 (.exprStmt (.assign (.ident _)
      (.binaryOp _ (.ident _) (.ident _))))
  case main =>
    refine List.forall_mem_cons.2 ⟨.loopStmt _ _ (.exprStmt (.call _ ?_)),
      List.forall_mem_singleton.2 (.returnStmt (List.forall_mem_singleton.2 (.ident _)))⟩
    exact List.forall_mem_singleton.2 (.literal (.int (by decide)))

end Cadence
