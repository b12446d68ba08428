/-
  Program trees as JSON, with every key written out.
-/
import Cadence.Node.Basic

namespace Cadence.Node

/-- The object of a node: its kind, then its fields. -/
def tagged (kind : String) (fields : List (String × Json)) : Json :=
  .object (("type", .text kind) :: fields)

mutual
def toJson : Node → Json
  | .absent => .null
  | .program globals functions =>
      tagged "Program"
        [("globals", .list (toItems globals)), ("functions", .list (toItems functions))]
  | .varDecl typeName name => tagged "VarDecl" [("type_name", typeName), ("name", name)]
  | .funcParam name typeName => tagged "FuncParam" [("name", name), ("type_name", typeName)]
  | .funcDecl name params locals body =>
      tagged "FuncDecl"
        [("name", name), ("params", .list (toItems params)), ("locals", .list (toItems locals)),
         ("body", .list (toItems body))]
  | .block statements => tagged "Block" [("statements", .list (toItems statements))]
  | .ifStmt condition thenBranch elseBranch =>
      tagged "IfStmt"
        [("condition", toJson condition), ("then_branch", toJson thenBranch),
         ("else_branch", toJson elseBranch)]
  | .whileStmt condition body =>
      tagged "WhileStmt" [("condition", toJson condition), ("body", toJson body)]
  | .forStmt init condition post body =>
      tagged "ForStmt"
        [("init", toJson init), ("condition", toJson condition), ("post", toJson post),
         ("body", toJson body)]
  | .loopStmt var array body =>
      tagged "LoopStmt" [("var", var), ("array", array), ("body", toJson body)]
  | .returnStmt value => tagged "ReturnStmt" [("value", toJson value)]
  | .exprStmt expr => tagged "ExprStmt" [("expr", toJson expr)]
  | .assign target value =>
      tagged "Assign" [("target", toJson target), ("value", toJson value)]
  | .binaryOp op left right =>
      tagged "BinaryOp" [("op", op), ("left", toJson left), ("right", toJson right)]
  | .unaryOp op operand => tagged "UnaryOp" [("op", op), ("operand", toJson operand)]
  | .literal content kind =>
      tagged "Literal" [("value", content.toJson), ("literal_type", kind)]
  | .ident name => tagged "Ident" [("name", name)]
  | .arrayLit elements => tagged "ArrayLit" [("elements", .list (toItems elements))]
  | .call name args => tagged "Call" [("name", name), ("args", .list (toItems args))]
  | .index array indices =>
      tagged "Index" [("array", array), ("indices", .list (toItems indices))]

def toItems : List Node → List Json
  | [] => []
  | n :: ns => toJson n :: toItems ns
end

end Cadence.Node
