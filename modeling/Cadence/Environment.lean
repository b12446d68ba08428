/-
  Frames and environments. A frame binds names to values in the order of their declaration. An
  environment is the frame of the running function over the frame of the globals; a local name
  hides a global one. Nothing is changed in place: setting a name gives a new environment. A ghost
  of the call that the locals were made for goes along with them.
-/
import Cadence.DeclaredType
import Cadence.Ghost
import Cadence.Node.Basic

namespace Cadence

/-- Names and values in order; a name occurs once, in the spelling it was first bound in. -/
abbrev Frame := List (Name × Value)

namespace Frame

def get? : Frame → Name → Option Value
  | [], _ => none
  | (n, v) :: rest, name => if n.same name then some v else get? rest name

def names (f : Frame) : List Name := f.map Prod.fst

def keys (f : Frame) : List Name.Key := f.names.map Name.key

theorem mem_keys_of_get? {name : Name} {v : Value} :
    ∀ {f : Frame}, f.get? name = some v → name.key ∈ f.keys
  | [], h => by simp [get?] at h
  | (n, w) :: rest, h => by
      rw [get?] at h
      split at h
      · rename_i e
        exact List.mem_cons.2 (Or.inl (Name.same_iff.1 e).symm)
      · exact List.mem_cons_of_mem _ (mem_keys_of_get? h)

/-- Binds a name: in place if the frame has it, at the end if not. -/
def insert (name : Name) (value : Value) : Frame → Frame
  | [] => [(name, value)]
  | (n, v) :: rest =>
      if n.same name then (n, value) :: rest else (n, v) :: insert name value rest

/-- The type that a type name given as JSON stands for. -/
def declaredType : Json → Except Failure DeclaredType
  | .text s => DeclaredType.ofText s
  | j => .error (.defect (.noPart j.kindName "strip"))

/-- Adds declared variables with their initial values. A name that is there already keeps its
    value, whatever type is declared for it. -/
def declare (base : Frame) : List Node → Except Failure Frame
  | [] => .ok base
  | decl :: rest => do
      let name ← decl.nameField >>= Operator.nameOf
      match base.get? name with
      | some _ => declare base rest
      | none => do
          let value ← decl.typeNameField >>= declaredType >>= DeclaredType.initial
          declare (base ++ [(name, value)]) rest

/-- Binds parameters to arguments, in order. A repeated parameter takes the last of its
    arguments. -/
def bindParams (base : Frame) : List Node → List Value → Except Failure Frame
  | param :: params, arg :: args => do
      let name ← param.nameField >>= Operator.nameOf
      bindParams (insert name arg base) params args
  | _, _ => .ok base

def described (f : Frame) : String :=
  let entry (b : Name × Value) := b.1.described ++ ": " ++ b.2.described
  "\x7b" ++ String.intercalate ", " (f.map entry) ++ "\x7d"

end Frame

/-- A call of a function of the program, with the arguments that it was given. -/
structure Activation where
  function : Node
  args : List Value

structure Environment where
  locals : Frame
  globals : Frame
  /-- The call that the locals belong to, if they were made for one. -/
  activation : Ghost (Option Activation) := .of none
  deriving Inhabited

/-- The frame that a name belongs to. -/
inductive Scope where
  | local
  | global
  deriving DecidableEq, Repr

def Scope.text : Scope → String
  | .local => "local"
  | .global => "global"

namespace Environment

/-- Where a name is bound: in the locals before the globals. -/
def scope? (env : Environment) (name : Name) : Option Scope :=
  if (env.locals.get? name).isSome then some .local
  else if (env.globals.get? name).isSome then some .global
  else none

def get? (env : Environment) (name : Name) : Option Value :=
  (env.locals.get? name).or (env.globals.get? name)

def contains (env : Environment) (name : Name) : Bool := (env.scope? name).isSome

def undeclared {α : Type} (name : Name) : Except Failure α :=
  .error (.fault (.undeclared name))

def get (env : Environment) (name : Name) : Except Failure Value :=
  match env.get? name with
  | some v => .ok v
  | none => undeclared name

def scopeOf (env : Environment) (name : Name) : Except Failure Scope :=
  match env.scope? name with
  | some s => .ok s
  | none => undeclared name

/-- Rebinds a name in the frame that it belongs to. -/
def set (env : Environment) (name : Name) (value : Value) : Except Failure Environment :=
  match env.scope? name with
  | some .local => .ok { env with locals := env.locals.insert name value }
  | some .global => .ok { env with globals := env.globals.insert name value }
  | none => undeclared name

def withGlobals (env : Environment) (globals : Frame) : Environment := { env with globals }

def described (env : Environment) : String :=
  s!"Environment(locals={env.locals.described}, globals={env.globals.described})"

/-- Every key of an environment, the locals first. -/
def keys (env : Environment) : List Name.Key := env.locals.keys ++ env.globals.keys

theorem mem_keys_of_get? {env : Environment} {name : Name} {v : Value}
    (h : env.get? name = some v) : name.key ∈ env.keys := by
  rw [keys, List.mem_append]
  rw [get?, Option.or_eq_some_iff] at h
  rcases h with h | ⟨_, h⟩
  · exact Or.inl (Frame.mem_keys_of_get? h)
  · exact Or.inr (Frame.mem_keys_of_get? h)

end Environment

end Cadence
