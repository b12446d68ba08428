/-
  The rules for statements.
-/
import Cadence.Machine.Expression

namespace Cadence

namespace Machine

open Reference

/-- Repeats the body while the condition is true, for at most so many rounds. -/
def whileLoop (m : Machine) (condition body : Node) : Nat → Environment → Act Outcome
  | 0, _ => Act.unfinished
  | rounds + 1, env => do
      let (c, env) ← m.evaluate condition env
      if c.isTrue then
        match ← m.execute body env with
        | .next env => whileLoop m condition body rounds env
        | .returned v globals => return .returned v globals
      else return .next env

/-- Evaluates an expression that may be missing, for its effect. -/
def evaluateOptional (m : Machine) (node : Node) (env : Environment) : Act Environment :=
  if node.isAbsent then pure env
  else do
    let (_, env) ← m.evaluate node env
    return env

/-- A condition that may be missing and then holds. -/
def conditionHolds (m : Machine) (condition : Node) (env : Environment) :
    Act (Bool × Environment) :=
  if condition.isAbsent then pure (true, env)
  else do
    let (c, env) ← m.evaluate condition env
    return (c.isTrue, env)

/-- The passes of a counted loop behind its first expression. -/
def forLoop (m : Machine) (condition post body : Node) : Nat → Environment → Act Outcome
  | 0, _ => Act.unfinished
  | rounds + 1, env => do
      let (holds, env) ← conditionHolds m condition env
      if holds then
        match ← m.execute body env with
        | .next env => do
            let env ← evaluateOptional m post env
            forLoop m condition post body rounds env
        | .returned v globals => return .returned v globals
      else return .next env

/-- The passes of a loop over an array: the variable refers to each element in turn, `count` of
    them from `index` on. -/
def elementLoop (m : Machine) (var array : Name) (body : Node) :
    Nat → Int → Environment → Act Outcome
  | 0, _, env => pure (.next env)
  | count + 1, index, env => do
      let env ← Act.lift (env.set var (.ref array index))
      match ← m.execute body env with
      | .next env => elementLoop m var array body count (index + 1) env
      | .returned v globals => return .returned v globals

/-- A loop over an array. Its length is taken once, before the first pass. -/
def executeLoop (m : Machine) (var array : Json) (body : Node) (env : Environment) :
    Act Outcome := do
  Act.require (var.alike array = false) (.loopOverItself var.shown)
  let arrayName ← Act.lift (Operator.nameOf array)
  let items ← itemsOf env arrayName .loop
  if items.isEmpty then return .next env
  let varName ← Act.lift (Operator.nameOf var)
  elementLoop m varName arrayName body items.size 0 env

/-- Executes one statement, its parts by `m`. -/
def executeNode (ctx : Context) (m : Machine) (node : Node) (env : Environment) : Act Outcome :=
  match node with
  | .block statements => executeAll m statements env
  | .exprStmt expr => do
      let (_, env) ← m.evaluate expr env
      return .next env
  | .ifStmt condition thenBranch elseBranch => do
      let (c, env) ← m.evaluate condition env
      ctx.debug 3 do
        let text ← ctx.text c
        return s!"if condition {text} -> {(Json.bool c.isTrue).shown}"
      if c.isTrue then m.execute thenBranch env
      else if elseBranch.isAbsent then return .next env
      else m.execute elseBranch env
  | .whileStmt condition body => whileLoop m condition body m.rounds env
  | .forStmt init condition post body => do
      let env ← evaluateOptional m init env
      forLoop m condition post body m.rounds env
  | .loopStmt var array body => executeLoop m var array body env
  | .returnStmt value =>
      if value.isAbsent then return .returned (.bool false) env.globals
      else do
        let (v, env) ← m.evaluate value env
        return .returned v env.globals
  | other => Act.fail (.defect (.unexpectedNode .execute other.kindName))

end Machine

/-! ## Closing the recursion -/

namespace Context

mutual
/-- Evaluates an expression at a level of nesting. The fuel bounds the nesting of nodes and calls
    and the passes of each loop. -/
def evaluate (ctx : Context) : Nat → Nat → Node → Environment → Act (Value × Environment)
  | 0, _, _, _ => Act.unfinished
  | fuel + 1, level, node, env => do
      ctx.enter level
      Act.note (.reached env)
      let (v, env) ← Machine.evaluateNode ctx
        { evaluate := evaluate ctx fuel (level + 1), execute := execute ctx fuel (level + 1)
          rounds := fuel }
        node env
      Act.note (.yielded v env)
      return (v, env)

/-- Executes a statement at a level of nesting. -/
def execute (ctx : Context) : Nat → Nat → Node → Environment → Act Outcome
  | 0, _, _, _ => Act.unfinished
  | fuel + 1, level, node, env => do
      ctx.enter level
      Act.note (.reached env)
      let outcome ← Machine.executeNode ctx
        { evaluate := evaluate ctx fuel (level + 1), execute := execute ctx fuel (level + 1)
          rounds := fuel }
        node env
      Act.note outcome.event
      return outcome
end

/-- The machine that works with a given fuel at a level of nesting. -/
def machine (ctx : Context) (fuel level : Nat) : Machine :=
  { evaluate := ctx.evaluate fuel level, execute := ctx.execute fuel level, rounds := fuel }

end Context

end Cadence
