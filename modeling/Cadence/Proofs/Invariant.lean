/-
  Invariants of runs.

  An `Invariant` says what holds at every moment of a run: of the values that expressions have, of
  the environments of each activation of a function, and of the studio. It is kept (`Kept`) if
  whatever a single rule of the language does leaves it true. `Machine.Respects` says that a
  machine then keeps it over whole nodes, and `Invariant.machine_respects`, at the end of
  `Proofs.Induction`, that every machine does.

  `Keeps` is the judgement for computations. It has a rule for each way of putting them together.
-/
import Cadence.Proofs.Results
import Cadence.Session

namespace Cadence

/-! ## The parts of a node -/

namespace Node

/-- The nodes among some that are there. -/
def present (nodes : List Node) : List Node := nodes.filter fun n => !n.isAbsent

/-- The parts of a node that are evaluated along with it. -/
def expressions : Node → List Node
  | .arrayLit elements => elements
  | .index _ indices => indices
  | .assign (.index _ indices) value => value :: indices
  | .assign _ value => [value]
  | .binaryOp _ left right => [left, right]
  | .unaryOp _ operand => [operand]
  | .call _ args => args
  | .exprStmt expr => [expr]
  | .ifStmt condition _ _ => [condition]
  | .whileStmt condition _ => [condition]
  | .forStmt init condition post _ => present [init, condition, post]
  | .returnStmt value => present [value]
  | _ => []

/-- The parts of a node that are executed along with it. -/
def statements : Node → List Node
  | .block statements => statements
  | .ifStmt _ thenBranch elseBranch => thenBranch :: present [elseBranch]
  | .whileStmt _ body => [body]
  | .forStmt _ _ _ body => [body]
  | .loopStmt _ _ body => [body]
  | _ => []

/-- The names that a node looks up itself. -/
def lookups : Node → List Json
  | .ident name => [name]
  | .index array _ => [array]
  | .assign (.ident name) _ => [name]
  | .assign (.index array _) _ => [array]
  | .call name _ => [name]
  | .loopStmt var array _ => [var, array]
  | _ => []

def isExpression : Node → Bool
  | .literal .. | .ident _ | .arrayLit _ | .index .. | .assign .. | .binaryOp .. | .unaryOp ..
  | .call .. => true
  | _ => false

def isStatement : Node → Bool
  | .block _ | .exprStmt _ | .ifStmt .. | .whileStmt .. | .forStmt .. | .loopStmt ..
  | .returnStmt _ => true
  | _ => false

theorem mem_present {n : Node} {nodes : List Node} (h : n ∈ nodes) (there : n.isAbsent = false) :
    n ∈ present nodes :=
  List.mem_filter.2 ⟨h, by rw [there]; rfl⟩

end Node

/-! ## Invariants -/

/-- What a run keeps to. The activations of functions are told apart by an index. -/
structure Invariant (ι : Type) where
  /-- The values of expressions, arguments and returned values. -/
  value : Value → Prop
  /-- The environments of an activation. -/
  env : ι → Environment → Prop
  /-- The globals, which all activations share. -/
  globals : Frame → Prop
  /-- The nodes that an activation evaluates. -/
  expr : ι → Node → Prop
  /-- The nodes that an activation executes. -/
  stmt : ι → Node → Prop
  studio : Studio → Prop
  /-- The failures that may end the run, with the studio at that moment. -/
  failed : Failure → Studio → Prop
  /-- The studio when the run is cut short. -/
  cut : Studio → Prop

namespace Invariant

variable {ι α β : Type} {I : Invariant ι}

/-- A result that does not depend on the studio is in order: a value with `Q`, or a failure that may
    end the run. -/
abbrev Allows (I : Invariant ι) (r : Except Failure α) (Q : α → Prop) : Prop :=
  Yields Q (fun e => ∀ s, I.studio s → I.failed e s) r

/-- A computation that is started in order ends in order, with `Q` of its result. -/
def Keeps (I : Invariant ι) (x : Act α) (Q : α → Prop) : Prop :=
  ∀ s, I.studio s →
    match x s with
    | (.done a, t) => Q a ∧ I.studio t
    | (.failed e, t) => I.failed e t
    | (.unfinished, t) => I.cut t

/-- What an event of the run may be about. Calls of built-in functions are judged as a whole. -/
def Admits (I : Invariant ι) : Event → Prop
  | .reached env => ∃ i, I.env i env
  | .yielded v env => I.value v ∧ ∃ i, I.env i env
  | .returned v globals => I.value v ∧ I.globals globals
  | .called _ args => ∀ v ∈ args, I.value v
  | .performed .. => False

/-- In some environment of the activation the name stands for an array. -/
def HasArray (I : Invariant ι) (i : ι) (name : Name) : Prop :=
  ∃ env items, I.env i env ∧ Reference.resolve env name = .ok (.array items)

/-! ## Rules for computations -/

theorem Keeps.pure {a : α} {Q : α → Prop} (h : Q a) : I.Keeps (pure a) Q := fun _ hs => ⟨h, hs⟩

theorem Keeps.bind {x : Act α} {f : α → Act β} {Q : α → Prop} {R : β → Prop}
    (hx : I.Keeps x Q) (hf : ∀ a, Q a → I.Keeps (f a) R) : I.Keeps (x >>= f) R := by
  intro s hs
  have h := hx s hs
  show match Act.bind x f s with
    | (.done b, t) => R b ∧ I.studio t
    | (.failed e, t) => I.failed e t
    | (.unfinished, t) => I.cut t
  unfold Act.bind
  rcases e : x s with ⟨a | e | _, t⟩ <;> rw [e] at h
  · exact hf a h.1 t h.2
  · exact h
  · exact h

theorem Keeps.mono {x : Act α} {Q R : α → Prop} (h : I.Keeps x Q) (sub : ∀ a, Q a → R a) :
    I.Keeps x R := by
  intro s hs
  have h := h s hs
  rcases e : x s with ⟨a | e | _, t⟩ <;> rw [e] at h
  · exact ⟨sub a h.1, h.2⟩
  · exact h
  · exact h

theorem Keeps.lift {r : Except Failure α} {Q : α → Prop} (h : I.Allows r Q) :
    I.Keeps (Act.lift r) Q := by
  intro s hs
  cases h with
  | ok h => exact ⟨h, hs⟩
  | error h => exact h s hs

/-- The result of a computation without effects, with the equation that it satisfies. -/
theorem Keeps.lift_eq {r : Except Failure α} {Q : α → Prop} (h : I.Allows r Q) :
    I.Keeps (Act.lift r) fun a => r = .ok a ∧ Q a :=
  Keeps.lift (h.mono fun _ e q => ⟨e, q⟩)

theorem Keeps.fail {e : Failure} {Q : α → Prop} (h : ∀ s, I.studio s → I.failed e s) :
    I.Keeps (Act.fail e) Q := h

theorem Keeps.modify {f : Studio → Studio} (h : ∀ s, I.studio s → I.studio (f s)) :
    I.Keeps (Act.modify f) fun _ => True := fun s hs => ⟨trivial, h s hs⟩

theorem Keeps.read {f : Studio → α} {Q : α → Prop} (h : ∀ s, I.studio s → Q (f s)) :
    I.Keeps (Act.read f) Q := fun s hs => ⟨h s hs, hs⟩

theorem Keeps.randomBelow {bound : Nat} {Q : Nat → Prop}
    (drawn : ∀ random s, I.studio s → I.studio { s with random })
    (h : ∀ t : Twister, Q (t.below bound).1) : I.Keeps (Act.randomBelow bound) Q := by
  intro s hs
  have hn := h s.random
  unfold Act.randomBelow
  -- the generator is not to be run
  generalize s.random.below bound = r at hn
  exact ⟨hn, drawn r.2 s hs⟩

theorem Keeps.randomDouble (drawn : ∀ random s, I.studio s → I.studio { s with random }) :
    I.Keeps Act.randomDouble fun _ => True := by
  intro s hs
  unfold Act.randomDouble
  generalize s.random.double = r
  exact ⟨trivial, drawn r.2 s hs⟩

end Invariant

/-! ## What the rules need -/

/-- The invariant is left true by whatever a rule of the language does. -/
structure Invariant.Kept {ι : Type} (I : Invariant ι) (ctx : Context) : Prop where
  -- the studio
  fault : ∀ f s, I.studio s → I.failed (.fault f) s
  cut : ∀ s, I.studio s → I.cut s
  noted : ∀ e s, I.Admits e → I.studio s → I.studio (s.noted e)
  debugged : 0 < ctx.debugLevel → ∀ text s, I.studio s → I.studio (s.debug text)
  depth : ∀ d s, I.studio s → I.studio { s with depth := d }
  depth_failed : ∀ d e s, I.failed e s → I.failed e { s with depth := d }
  depth_cut : ∀ d s, I.cut s → I.cut { s with depth := d }
  -- nodes
  expressions : ∀ i n, I.expr i n ∨ I.stmt i n → ∀ p ∈ n.expressions, I.expr i p
  statements : ∀ i n, I.stmt i n → ∀ p ∈ n.statements, I.stmt i p
  lookups : ∀ i n, I.expr i n ∨ I.stmt i n →
    ∀ j ∈ n.lookups, I.Allows (Operator.nameOf j) fun _ => True
  notExpression : ∀ i n, I.expr i n → n.isExpression = false →
    ∀ s, I.studio s → I.failed (.defect (.unexpectedNode .evaluate n.kindName)) s
  notStatement : ∀ i n, I.stmt i n → n.isStatement = false →
    ∀ s, I.studio s → I.failed (.defect (.unexpectedNode .execute n.kindName)) s
  -- values
  falsity : I.value (.bool false)
  tag : ∀ v, I.value v → I.Allows v.tag fun _ => True
  text : ∀ v, I.value v → I.Allows (v.text ctx.room) fun _ => True
  texts : ∀ vs, (∀ v ∈ vs, I.value v) → I.Allows (Value.texts ctx.room vs) fun _ => True
  literal : ∀ i c k, I.expr i (.literal c k) → I.Allows (c.toValue.asLiteral k) I.value
  arrayLit : ∀ i ns vs, I.expr i (.arrayLit ns) → vs.length = ns.length →
    (∀ v ∈ vs, I.value v) → I.Allows (Value.ofItems vs) I.value
  binary : ∀ i op l r a b, I.expr i (.binaryOp op l r) → I.value a → I.value b →
    I.Allows (Operator.binary op a b) I.value
  unary : ∀ i op o a, I.expr i (.unaryOp op o) → I.value a → I.Allows (Operator.unary op a) I.value
  element : ∀ v name index, I.value v → I.Allows (Reference.elementAt v name index) I.value
  -- environments
  globals : ∀ i env, I.env i env → I.globals env.globals
  withGlobals : ∀ i env g, I.env i env → I.globals g → I.env i (env.withGlobals g)
  resolve : ∀ i env name, I.env i env → I.Allows (Reference.resolve env name) I.value
  checkAssignable : ∀ name a b, I.value a → I.value b →
    I.Allows (Reference.checkAssignable name a b) fun _ => True
  assignName : ∀ i j e env name held v, I.expr i (.assign (.ident j) e) →
    Operator.nameOf j = .ok name → I.env i env → Reference.resolve env name = .ok held →
    Reference.checkAssignable name held v = .ok () → I.value v →
    I.Allows (Reference.store env name v) (I.env i)
  replaceElement : ∀ items name index v, I.value (.array items) → I.value v →
    I.Allows (Reference.replaceElement ctx.nesting items name index v) I.value
  assignIndex : ∀ i j ns e env name items index v updated, I.expr i (.assign (.index j ns) e) →
    Operator.nameOf j = .ok name → I.env i env → Reference.resolve env name = .ok (.array items) →
    Reference.replaceElement ctx.nesting items name index v = .ok updated → I.value updated →
    I.Allows (Reference.store env name updated) (I.env i)
  bindElement : ∀ i j k body env var array index, I.stmt i (.loopStmt j k body) →
    Operator.nameOf j = .ok var → Operator.nameOf k = .ok array → I.HasArray i array →
    I.env i env → 0 ≤ index → I.Allows (env.set var (.ref array index)) (I.env i)
  -- calls
  perform : ∀ (b : Builtin) (vs : List Value), (∀ v ∈ vs, I.value v) →
    (∀ n, b.arity = some n → vs.length = n) →
    I.Keeps (b.perform ctx.room vs) I.value
  activate : ∀ name f params decls body vs g,
    ctx.functions.get? name = some (.funcDecl f params decls body) → vs.length = params.length →
    (∀ v ∈ vs, I.value v) → I.globals g →
    I.Allows (Frame.bindParams [] params vs >>= fun bound => bound.declare decls) fun locals =>
      let activation := .of (some { function := .funcDecl f params decls body, args := vs })
      ∃ i, I.env i { locals, globals := g, activation } ∧ ∀ st ∈ body, I.stmt i st
  notFunction : ∀ name n, ctx.functions.get? name = some n →
    (∀ f params decls body, n ≠ .funcDecl f params decls body) →
    ∀ s, I.studio s → I.failed (.defect (.noPart n.kindName "params")) s

/-! ## Invariants of the studio alone -/

namespace Invariant

/-- An invariant that asks nothing of values, environments and nodes. -/
def ofStudio (P : Studio → Prop) (F : Failure → Studio → Prop) (G : Studio → Prop) :
    Invariant Unit where
  value _ := True
  env _ _ := True
  globals _ := True
  expr _ _ := True
  stmt _ _ := True
  studio := P
  failed := F
  cut := G

variable {P : Studio → Prop} {F : Failure → Studio → Prop} {G : Studio → Prop} {α : Type}

/-- If the run may fail at any moment, any result is in order. -/
theorem ofStudio_allows (fails : ∀ e s, P s → F e s) (r : Except Failure α) {Q : α → Prop}
    (hQ : ∀ a, Q a) : (ofStudio P F G).Allows r Q := by
  cases r with
  | ok a => exact .ok (hQ a)
  | error e => exact .error (fails e)

/-- Only what the rules do to the studio counts. -/
theorem ofStudio_kept {ctx : Context} (fails : ∀ e s, P s → F e s) (cut : ∀ s, P s → G s)
    (noted : ∀ e s, (ofStudio P F G).Admits e → P s → P (s.noted e))
    (debugged : 0 < ctx.debugLevel → ∀ text s, P s → P (s.debug text))
    (depth : ∀ d s, P s → P { s with depth := d })
    (depth_failed : ∀ d e s, F e s → F e { s with depth := d })
    (depth_cut : ∀ d s, G s → G { s with depth := d })
    (perform : ∀ (b : Builtin) (vs : List Value), (∀ n, b.arity = some n → vs.length = n) →
      (ofStudio P F G).Keeps (b.perform ctx.room vs) fun _ => True) :
    (ofStudio P F G).Kept ctx where
  fault f := fails (.fault f)
  cut := cut
  noted := noted
  debugged := debugged
  depth := depth
  depth_failed := depth_failed
  depth_cut := depth_cut
  expressions _ _ _ _ _ := trivial
  statements _ _ _ _ _ := trivial
  lookups _ _ _ _ _ := ofStudio_allows fails _ fun _ => trivial
  notExpression _ _ _ _ := fails _
  notStatement _ _ _ _ := fails _
  falsity := trivial
  tag _ _ := ofStudio_allows fails _ fun _ => trivial
  text _ _ := ofStudio_allows fails _ fun _ => trivial
  texts _ _ := ofStudio_allows fails _ fun _ => trivial
  literal _ _ _ _ := ofStudio_allows fails _ fun _ => trivial
  arrayLit _ _ _ _ _ _ := ofStudio_allows fails _ fun _ => trivial
  binary _ _ _ _ _ _ _ _ _ := ofStudio_allows fails _ fun _ => trivial
  unary _ _ _ _ _ _ := ofStudio_allows fails _ fun _ => trivial
  element _ _ _ _ := ofStudio_allows fails _ fun _ => trivial
  globals _ _ _ := trivial
  withGlobals _ _ _ _ _ := trivial
  resolve _ _ _ _ := ofStudio_allows fails _ fun _ => trivial
  checkAssignable _ _ _ _ _ := ofStudio_allows fails _ fun _ => trivial
  assignName _ _ _ _ _ _ _ _ _ _ _ _ _ := ofStudio_allows fails _ fun _ => trivial
  replaceElement _ _ _ _ _ _ := ofStudio_allows fails _ fun _ => trivial
  assignIndex _ _ _ _ _ _ _ _ _ _ _ _ _ _ _ _ := ofStudio_allows fails _ fun _ => trivial
  bindElement _ _ _ _ _ _ _ _ _ _ _ _ _ _ := ofStudio_allows fails _ fun _ => trivial
  perform b vs _ arity := perform b vs arity
  activate _ _ _ _ _ _ _ _ _ _ _ :=
    ofStudio_allows fails _ fun _ => ⟨(), trivial, fun _ _ => trivial⟩
  notFunction _ _ _ _ := fails _

/-- The invariant that asks nothing at all. -/
def anything : Invariant Unit := ofStudio (fun _ => True) (fun _ _ => True) fun _ => True

theorem anything_keeps (x : Act α) : anything.Keeps x fun _ => True := by
  intro s _
  rcases x s with ⟨a | e | _, t⟩
  · exact ⟨trivial, trivial⟩
  · trivial
  · trivial

theorem anything_kept (ctx : Context) : anything.Kept ctx :=
  ofStudio_kept (fun _ _ _ => trivial) (fun _ _ => trivial) (fun _ _ _ _ => trivial)
    (fun _ _ _ _ => trivial) (fun _ _ _ => trivial) (fun _ _ _ _ => trivial)
    (fun _ _ _ => trivial) fun _ _ _ => anything_keeps _

end Invariant

end Cadence
