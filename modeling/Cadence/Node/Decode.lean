/-
  Program trees from JSON. A node is an object whose `type` names its kind; `null` is the absent
  node. A list of nodes may be any JSON value with items; a text or an object only if it is empty,
  since a character or a key is no node. A parameter may be given by its bare name.
-/
import Cadence.Node.Basic

namespace Cadence.Node

open Json (field?)

theorem sizeOf_field?_lt {key : String} {v : Json} :
    ∀ {fields : List (String × Json)}, field? key fields = some v → sizeOf v < sizeOf fields
  | [], h => by simp [field?] at h
  | (k, w) :: rest, h => by
      rw [field?] at h
      split at h
      · cases h; simp; omega
      · have := sizeOf_field?_lt h
        simp; omega

/-- The value under a key that has to be there. -/
def required (fields : List (String × Json)) (key : String) : Except Failure Json :=
  match field? key fields with
  | some v => .ok v
  | none => .error (.defect (.missingKey key))

/-- A parameter given by its bare name. -/
def bareParam (name : String) : Node := .funcParam (.text name) .null

mutual
def ofJson : Json → Except Failure Node
  | .null => .ok .absent
  | .object fields =>
      match field? "type" fields with
      | some (.text "Program") => do
          let globals ← nodesOr fields "globals"
          let functions ← nodesOr fields "functions"
          return .program globals functions
      | some (.text "VarDecl") => do
          let typeName ← required fields "type_name"
          let name ← required fields "name"
          return .varDecl typeName name
      | some (.text "FuncParam") => do
          let name ← required fields "name"
          return .funcParam name ((field? "type_name" fields).getD .null)
      | some (.text "FuncDecl") => do
          let name ← required fields "name"
          let params ← paramsOr fields "params"
          let locals ← nodesOr fields "locals"
          let body ← nodesOr fields "body"
          return .funcDecl name params locals body
      | some (.text "Block") => do
          let statements ← nodes fields "statements"
          return .block statements
      | some (.text "IfStmt") => do
          let condition ← node fields "condition"
          let thenBranch ← node fields "then_branch"
          let elseBranch ← nodeOr fields "else_branch"
          return .ifStmt condition thenBranch elseBranch
      | some (.text "WhileStmt") => do
          let condition ← node fields "condition"
          let body ← node fields "body"
          return .whileStmt condition body
      | some (.text "ForStmt") => do
          let init ← nodeOr fields "init"
          let condition ← nodeOr fields "condition"
          let post ← nodeOr fields "post"
          let body ← node fields "body"
          return .forStmt init condition post body
      | some (.text "LoopStmt") => do
          let var ← required fields "var"
          let array ← required fields "array"
          let body ← node fields "body"
          return .loopStmt var array body
      | some (.text "ReturnStmt") => do
          let value ← nodeOr fields "value"
          return .returnStmt value
      | some (.text "ExprStmt") => do
          let expr ← node fields "expr"
          return .exprStmt expr
      | some (.text "Assign") => do
          let target ← node fields "target"
          let value ← node fields "value"
          return .assign target value
      | some (.text "BinaryOp") => do
          let op ← required fields "op"
          let left ← node fields "left"
          let right ← node fields "right"
          return .binaryOp op left right
      | some (.text "UnaryOp") => do
          let op ← required fields "op"
          let operand ← node fields "operand"
          return .unaryOp op operand
      | some (.text "Literal") => do
          let value ← required fields "value"
          let kind ← required fields "literal_type"
          let content ← Literal.ofJson value kind
          return .literal content kind
      | some (.text "Ident") => do
          let name ← required fields "name"
          return .ident name
      | some (.text "ArrayLit") => do
          let elements ← nodes fields "elements"
          return .arrayLit elements
      | some (.text "Call") => do
          let name ← required fields "name"
          let args ← nodesOr fields "args"
          return .call name args
      | some (.text "Index") => do
          let array ← required fields "array"
          let indices ← nodes fields "indices"
          return .index array indices
      | kind => .error (.defect (.unknownNode (kind.getD .null).shown))
  | _ => .error (.defect .notNode)
termination_by j => sizeOf j

/-- The node under a key that has to be there. -/
def node (fields : List (String × Json)) (key : String) : Except Failure Node :=
  match h : field? key fields with
  | some v =>
      have := sizeOf_field?_lt h
      ofJson v
  | none => .error (.defect (.missingKey key))
termination_by sizeOf fields

/-- The node under a key, absent if the key is. -/
def nodeOr (fields : List (String × Json)) (key : String) : Except Failure Node :=
  match h : field? key fields with
  | some v =>
      have := sizeOf_field?_lt h
      ofJson v
  | none => .ok .absent
termination_by sizeOf fields

/-- The nodes under a key that has to be there. -/
def nodes (fields : List (String × Json)) (key : String) : Except Failure (List Node) :=
  match h : field? key fields with
  | some v =>
      have := sizeOf_field?_lt h
      nodesOf v
  | none => .error (.defect (.missingKey key))
termination_by sizeOf fields

/-- The nodes under a key, none if the key is absent. -/
def nodesOr (fields : List (String × Json)) (key : String) : Except Failure (List Node) :=
  match h : field? key fields with
  | some v =>
      have := sizeOf_field?_lt h
      nodesOf v
  | none => .ok []
termination_by sizeOf fields

/-- The parameters under a key, none if the key is absent. -/
def paramsOr (fields : List (String × Json)) (key : String) : Except Failure (List Node) :=
  match h : field? key fields with
  | some v =>
      have := sizeOf_field?_lt h
      paramsOf v
  | none => .ok []
termination_by sizeOf fields

def nodesOf : Json → Except Failure (List Node)
  | .list items => ofItems items
  | .text s => if s.isEmpty then .ok [] else .error (.defect .notNode)
  | .object fields => if fields.isEmpty then .ok [] else .error (.defect .notNode)
  | other => .error (.defect (.notIterable other.kindName))
termination_by j => sizeOf j

def ofItems : List Json → Except Failure (List Node)
  | [] => .ok []
  | j :: rest => do
      let n ← ofJson j
      let ns ← ofItems rest
      return n :: ns
termination_by items => sizeOf items

def paramsOf : Json → Except Failure (List Node)
  | .list items => paramItems items
  | .text s => .ok (s.toList.map fun c => bareParam c.toString)
  | .object fields => .ok (fields.map fun f => bareParam f.1)
  | other => .error (.defect (.notIterable other.kindName))
termination_by j => sizeOf j

def paramItems : List Json → Except Failure (List Node)
  | [] => .ok []
  | .text name :: rest => do
      let ns ← paramItems rest
      return bareParam name :: ns
  | j :: rest => do
      let n ← ofJson j
      let ns ← paramItems rest
      return n :: ns
termination_by items => sizeOf items
end

end Cadence.Node
