/-
  Well-formed program trees.

  Expressions stand where expressions belong and statements where statements do; names, operators
  and kinds are texts, and literals are of the kind they say. What a literal holds meets a standard
  where the language does not check it: the range of integers, and the parts of a sound.
-/
import Cadence.Proofs.Invariant
import Cadence.Proofs.Operators
import Cadence.Proofs.Storage

namespace Cadence

variable {S : Standard}

/-- A literal is of the kind it says. -/
inductive Literal.WellFormed (S : Standard) : Literal → String → Prop
  | int {n : Int} (range : Integer.InRange n) : WellFormed S (.plain (.int n)) "int"
  | bool (b : Bool) : WellFormed S (.plain (.bool b)) "bool"
  | double (x : Float) : WellFormed S (.plain (.double x)) "double"
  | pitch {name : String} (h : Pitch.Regular name) : WellFormed S (.pitch (.text name)) "pitch"
  | pitchName {name : String} (h : Pitch.Regular name) :
      WellFormed S (.plain (.text name)) "pitch"
  | sound {s : Sound} (h : s.Meets S) : WellFormed S (.sound s) "sound"

namespace Node

inductive Expression (S : Standard) : Node → Prop
  | literal {content : Literal} {kind : String} (h : content.WellFormed S kind) :
      Expression S (.literal content (.text kind))
  | ident (name : String) : Expression S (.ident (.text name))
  | arrayLit {elements : List Node} (size : S.size elements.length)
      (each : ∀ e ∈ elements, Expression S e) : Expression S (.arrayLit elements)
  | index (array : String) {indices : List Node} (each : ∀ e ∈ indices, Expression S e) :
      Expression S (.index (.text array) indices)
  | assign {target value : Node} (place : Expression S target) (given : Expression S value) :
      Expression S (.assign target value)
  | binaryOp (op : String) {left right : Node} (l : Expression S left) (r : Expression S right) :
      Expression S (.binaryOp (.text op) left right)
  | unaryOp (op : String) {operand : Node} (h : Expression S operand) :
      Expression S (.unaryOp (.text op) operand)
  | call (name : String) {args : List Node} (each : ∀ e ∈ args, Expression S e) :
      Expression S (.call (.text name) args)

/-- The parts of a `for`, the value of a `return` and the second branch of an `if` may be left
    out. -/
inductive Statement (S : Standard) : Node → Prop
  | block {statements : List Node} (each : ∀ s ∈ statements, Statement S s) :
      Statement S (.block statements)
  | exprStmt {expr : Node} (h : Expression S expr) : Statement S (.exprStmt expr)
  | ifStmt {condition thenBranch elseBranch : Node} (c : Expression S condition)
      (t : Statement S thenBranch) (e : ∀ s ∈ present [elseBranch], Statement S s) :
      Statement S (.ifStmt condition thenBranch elseBranch)
  | whileStmt {condition body : Node} (c : Expression S condition) (b : Statement S body) :
      Statement S (.whileStmt condition body)
  | forStmt {init condition post body : Node}
      (parts : ∀ e ∈ present [init, condition, post], Expression S e) (b : Statement S body) :
      Statement S (.forStmt init condition post body)
  | loopStmt (var array : String) {body : Node} (b : Statement S body) :
      Statement S (.loopStmt (.text var) (.text array) body)
  | returnStmt {value : Node} (v : ∀ e ∈ present [value], Expression S e) :
      Statement S (.returnStmt value)

inductive Function (S : Standard) : Node → Prop
  | funcDecl (name : String) {params decls body : List Node} (p : ∀ n ∈ params, n.IsParameter)
      (d : ∀ n ∈ decls, n.IsVariable) (b : ∀ n ∈ body, Statement S n) :
      Function S (.funcDecl (.text name) params decls body)

inductive WellFormed (S : Standard) : Node → Prop
  | program {decls functions : List Node} (d : ∀ n ∈ decls, n.IsVariable)
      (f : ∀ n ∈ functions, Function S n) : WellFormed S (.program decls functions)

/-! ## Parts -/

theorem Expression.isExpression {n : Node} (h : Expression S n) : n.isExpression = true := by
  cases h <;> rfl

theorem Statement.isStatement {n : Node} (h : Statement S n) : n.isStatement = true := by
  cases h <;> rfl

theorem Expression.expressions {n : Node} (h : Expression S n) :
    ∀ p ∈ n.expressions, Expression S p := by
  cases h with
  | literal | ident => exact fun p hp => nomatch hp
  | arrayLit _ each | index _ each | call _ each => exact each
  | assign place given =>
      cases place with
      | index _ each => exact List.forall_mem_cons.2 ⟨given, each⟩
      | _ => exact List.forall_mem_singleton.2 given
  | binaryOp _ l r => exact List.forall_mem_cons.2 ⟨l, List.forall_mem_singleton.2 r⟩
  | unaryOp _ h => exact List.forall_mem_singleton.2 h

theorem Statement.expressions {n : Node} (h : Statement S n) :
    ∀ p ∈ n.expressions, Expression S p := by
  cases h with
  | block | loopStmt => exact fun p hp => nomatch hp
  | exprStmt h | ifStmt h _ _ | whileStmt h _ => exact List.forall_mem_singleton.2 h
  | forStmt parts _ | returnStmt parts => exact parts

theorem Statement.statements {n : Node} (h : Statement S n) :
    ∀ p ∈ n.statements, Statement S p := by
  cases h with
  | block each => exact each
  | ifStmt _ t e => exact List.forall_mem_cons.2 ⟨t, e⟩
  | whileStmt _ b | forStmt _ b | loopStmt _ _ b => exact List.forall_mem_singleton.2 b
  | exprStmt | returnStmt => exact fun p hp => nomatch hp

/-- All names are texts. -/
theorem lookups_texts {n : Node} (h : Expression S n ∨ Statement S n) :
    ∀ j ∈ n.lookups, ∃ name, j = .text name := by
  rcases h with h | h
  · cases h with
    | ident name | index name | call name => exact List.forall_mem_singleton.2 ⟨name, rfl⟩
    | assign place =>
        cases place with
        | ident name | index name => exact List.forall_mem_singleton.2 ⟨name, rfl⟩
        | _ => exact fun j hj => nomatch hj
    | _ => exact fun j hj => nomatch hj
  · cases h with
    | loopStmt var array =>
        exact List.forall_mem_cons.2 ⟨⟨var, rfl⟩, List.forall_mem_singleton.2 ⟨array, rfl⟩⟩
    | _ => exact fun j hj => nomatch hj

end Node

/-! ## Literals -/

theorem asPitch_safe {name : String} (h : Pitch.Regular name) :
    Safe ((Value.pitch (.text name)).asPitch) (Value.Meets S) :=
  (Pitch.semitone_safe h).map fun _ named _ => .pitch (S.accepted named)

theorem Literal.WellFormed.asLiteral_safe {content : Literal} {kind : String}
    (h : content.WellFormed S kind) :
    Safe (content.toValue.asLiteral (.text kind)) (Value.Meets S) := by
  cases h with
  | int range => exact .ok (.int range)
  | bool b => exact .ok (.bool b)
  | double x => exact .ok (.double x)
  | sound h => exact .ok (.sound h)
  | pitch h => exact asPitch_safe h
  | @pitchName name h =>
      have read : (Value.foreign (.text name)).semitoneOfName = Pitch.semitone name := rfl
      show Safe (Value.asPitch (.foreign (.text name))) _
      unfold Value.asPitch
      dsimp only
      rw [read]
      cases r : Pitch.semitone name with
      | error e => exact .error ((Pitch.semitone_safe h).of_error r)
      | ok n => exact .ok (.pitch (S.accepted r))

end Cadence
