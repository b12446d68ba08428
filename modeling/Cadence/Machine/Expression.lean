/-
  The rules for expressions and calls.
-/
import Cadence.Machine.Basic

namespace Cadence.Machine

open Reference

/-- Evaluates expressions from left to right, each in the environment that the one before it
    left. -/
def evaluateAll (m : Machine) : List Node → Environment → Act (List Value × Environment)
  | [], env => pure ([], env)
  | node :: rest, env => do
      let (v, env) ← m.evaluate node env
      let (vs, env) ← evaluateAll m rest env
      return (v :: vs, env)

/-- Executes statements in order, up to the first that returns. -/
def executeAll (m : Machine) : List Node → Environment → Act Outcome
  | [], env => pure (.next env)
  | node :: rest, env => do
      match ← m.execute node env with
      | .next env => executeAll m rest env
      | .returned v globals => return .returned v globals

/-! ## Arrays -/

/-- The one index of an index expression. -/
def subscript (m : Machine) (array : Json) (indices : List Node) (env : Environment) :
    Act (Int × Environment) :=
  match indices with
  | [] => Act.fault (.noIndex array.shown)
  | [node] => do
      let (v, env) ← m.evaluate node env
      match v with
      | .int n => return (n, env)
      | v => do
          let tag ← Act.lift v.tag
          Act.fault (.indexNotInt tag)
  | _ => Act.fault (.manyIndices array.shown)

/-- The items of the array that a name holds. -/
def itemsOf (env : Environment) (name : Name) (use : Fault.ArrayUse) : Act (Array Value) := do
  match ← Act.lift (resolve env name) with
  | .array items => return items
  | _ => Act.fault (.notAnArray name use)

/-- Reading an element. The subscript may have changed the array, so it is looked up again. -/
def evaluateIndex (m : Machine) (array : Json) (indices : List Node) (env : Environment) :
    Act (Value × Environment) := do
  let name ← Act.lift (Operator.nameOf array)
  let _ ← itemsOf env name .read
  let (index, env) ← subscript m array indices env
  let held ← Act.lift (resolve env name)
  let v ← Act.lift (elementAt held name index)
  return (v, env)

/-! ## Assignment -/

def assignName (ctx : Context) (target : Json) (value : Value) (env : Environment) :
    Act (Value × Environment) := do
  let name ← Act.lift (Operator.nameOf target)
  let current ← Act.lift (resolve env name)
  Act.lift (checkAssignable name current value)
  let env ← Act.lift (store env name value)
  ctx.debug 3 do
    let scope ← Act.lift (env.scopeOf name)
    let text ← ctx.text value
    return s!"assign {scope.text} {name.shown} = {text}"
  return (value, env)

def assignIndex (ctx : Context) (m : Machine) (array : Json) (indices : List Node)
    (value : Value) (env : Environment) : Act (Value × Environment) := do
  let name ← Act.lift (Operator.nameOf array)
  let _ ← itemsOf env name .assign
  let (index, env) ← subscript m array indices env
  let items ← itemsOf env name .assign
  let updated ← Act.lift (replaceElement ctx.nesting items name index value)
  let env ← Act.lift (store env name updated)
  ctx.debug 3 do
    let text ← ctx.text value
    return s!"assign {name.shown}[{index}] = {text}"
  return (value, env)

/-- Assigns to a variable or to an element of an array. -/
def assign (ctx : Context) (m : Machine) (target : Node) (value : Value) (env : Environment) :
    Act (Value × Environment) :=
  match target with
  | .ident name => assignName ctx name value env
  | .index array indices => assignIndex ctx m array indices value env
  | _ => Act.fault .notAssignable

/-! ## Calls -/

/-- What a call gives, after its body. Without a `return` it yields false. -/
def finishCall (ctx : Context) (name : Json) : Outcome → Act (Value × Frame)
  | .returned v globals => do
      ctx.debug 2 do
        let text ← ctx.text v
        return s!"return from {name.shown}: {text}"
      return (v, globals)
  | .next env => return (.bool false, env.globals)

/-- Calls a function of the program. It sees its parameters, its own variables and the globals,
    and none of the caller's variables. -/
def callFunction (ctx : Context) (m : Machine) (function : Node) (args : List Value)
    (globals : Frame) : Act (Value × Frame) :=
  match function with
  | .funcDecl name params decls body => do
      Act.note (.called name args)
      Act.require (args.length = params.length) (.wrongArity name.shown)
      let bound ← Act.lift (Frame.bindParams [] params args)
      let locals ← Act.lift (bound.declare decls)
      ctx.debug 2 do
        let texts ← ctx.texts args
        return s!"call {name.shown}({texts})"
      let depth ← Act.read Studio.depth
      Act.require (depth < ctx.maxDepth) (.callDepth ctx.maxDepth name.shown)
      let activation := .of (some { function, args })
      let outcome ← Act.inCall (executeAll m body { locals, globals, activation })
      finishCall ctx name outcome
  | other => Act.lift (other.noPart "params")

def checkArity (b : Builtin) (args : List Value) : Act Unit :=
  match b.arity with
  | some n => Act.require (args.length = n) (.builtinArity b.name n args.length)
  | none => pure ()

def callBuiltin (ctx : Context) (b : Builtin) (args : List Value) : Act Value := do
  checkArity b args
  ctx.debug 2 do
    let texts ← ctx.texts args
    return s!"call builtin {b.name}({texts})"
  b.perform ctx.room args

/-- A call. The function is looked up before the arguments are evaluated. -/
def evaluateCall (ctx : Context) (m : Machine) (function : Json) (args : List Node)
    (env : Environment) : Act (Value × Environment) := do
  let name ← Act.lift (Operator.nameOf function)
  match Builtin.named? name with
  | some b => do
      let (vs, env) ← evaluateAll m args env
      let v ← callBuiltin ctx b vs
      return (v, env)
  | none =>
      match ctx.functions.get? name with
      | none => Act.fault (.undefinedFunction name)
      | some decl => do
          let (vs, env) ← evaluateAll m args env
          let (v, globals) ← callFunction ctx m decl vs env.globals
          return (v, env.withGlobals globals)

/-! ## Expressions -/

/-- Evaluates one expression, its parts by `m`. -/
def evaluateNode (ctx : Context) (m : Machine) (node : Node) (env : Environment) :
    Act (Value × Environment) :=
  match node with
  | .literal content kind => do
      let v ← Act.lift (content.toValue.asLiteral kind)
      return (v, env)
  | .ident name => do
      let name ← Act.lift (Operator.nameOf name)
      let v ← Act.lift (resolve env name)
      return (v, env)
  | .arrayLit elements => do
      let (vs, env) ← evaluateAll m elements env
      let v ← Act.lift (Value.ofItems vs)
      return (v, env)
  | .index array indices => evaluateIndex m array indices env
  | .assign target value => do
      let (v, env) ← m.evaluate value env
      assign ctx m target v env
  | .binaryOp op left right => do
      let (a, env) ← m.evaluate left env
      let (b, env) ← m.evaluate right env
      let v ← Act.lift (Operator.binary op a b)
      return (v, env)
  | .unaryOp op operand => do
      let (a, env) ← m.evaluate operand env
      let v ← Act.lift (Operator.unary op a)
      return (v, env)
  | .call name args => evaluateCall ctx m name args env
  | other => Act.fail (.defect (.unexpectedNode .evaluate other.kindName))

end Cadence.Machine
