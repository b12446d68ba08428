/-
  Program trees. A tree is decoded from JSON with few checks: any kind of node may stand at any
  place, a missing node is `absent`, and names, operators and type names are whatever JSON value
  was given. Running a tree finds out what does not fit.
-/
import Cadence.Literal

namespace Cadence

inductive Node where
  | absent
  | program (globals functions : List Node)
  | varDecl (typeName name : Json)
  | funcParam (name typeName : Json)
  | funcDecl (name : Json) (params locals body : List Node)
  | block (statements : List Node)
  | ifStmt (condition thenBranch elseBranch : Node)
  | whileStmt (condition body : Node)
  | forStmt (init condition post body : Node)
  | loopStmt (var array : Json) (body : Node)
  | returnStmt (value : Node)
  | exprStmt (expr : Node)
  | assign (target value : Node)
  | binaryOp (op : Json) (left right : Node)
  | unaryOp (op : Json) (operand : Node)
  | literal (content : Literal) (kind : Json)
  | ident (name : Json)
  | arrayLit (elements : List Node)
  | call (name : Json) (args : List Node)
  | index (array : Json) (indices : List Node)
  deriving Inhabited, Repr

namespace Node

/-- The word for the kind of a node, in program files and in messages. -/
def kindName : Node → String
  | .absent => "NoneType"
  | .program .. => "Program"
  | .varDecl .. => "VarDecl"
  | .funcParam .. => "FuncParam"
  | .funcDecl .. => "FuncDecl"
  | .block _ => "Block"
  | .ifStmt .. => "IfStmt"
  | .whileStmt .. => "WhileStmt"
  | .forStmt .. => "ForStmt"
  | .loopStmt .. => "LoopStmt"
  | .returnStmt _ => "ReturnStmt"
  | .exprStmt _ => "ExprStmt"
  | .assign .. => "Assign"
  | .binaryOp .. => "BinaryOp"
  | .unaryOp .. => "UnaryOp"
  | .literal .. => "Literal"
  | .ident _ => "Ident"
  | .arrayLit _ => "ArrayLit"
  | .call .. => "Call"
  | .index .. => "Index"

/-- The nodes directly inside a node. -/
def parts : Node → List Node
  | .program globals functions => globals ++ functions
  | .funcDecl _ params locals body => params ++ locals ++ body
  | .block nodes | .arrayLit nodes | .call _ nodes | .index _ nodes => nodes
  | .ifStmt condition thenBranch elseBranch => [condition, thenBranch, elseBranch]
  | .whileStmt condition body => [condition, body]
  | .forStmt init condition post body => [init, condition, post, body]
  | .loopStmt _ _ part | .returnStmt part | .exprStmt part | .unaryOp _ part => [part]
  | .assign target value => [target, value]
  | .binaryOp _ left right => [left, right]
  | .absent | .varDecl .. | .funcParam .. | .literal .. | .ident _ => []

def isAbsent : Node → Bool
  | .absent => true
  | _ => false

def noPart {α : Type} (n : Node) (part : String) : Except Failure α :=
  .error (.defect (.noPart n.kindName part))

/-- The name of a node that has one. -/
def nameField : Node → Except Failure Json
  | .varDecl _ name | .funcParam name _ | .funcDecl name .. | .ident name | .call name _ => .ok name
  | n => n.noPart "name"

/-- The type name of a declaration. -/
def typeNameField : Node → Except Failure Json
  | .varDecl typeName _ | .funcParam _ typeName => .ok typeName
  | n => n.noPart "type_name"

end Node

end Cadence
