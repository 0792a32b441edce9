import AelSyntax.Tree.Basic

/-! # Trees on one line

A node on one line is its kind with its fields in parentheses, without places. The statements of a
program stand in parentheses of their own, with a comma after a single one. -/

namespace AelSyntax

/-- A kind with its fields in parentheses. -/
def oneLineNode (kind : String) (fields : List (String × String)) : String :=
  kind ++ "(" ++ String.intercalate ", " (fields.map fun f => f.1 ++ "=" ++ f.2) ++ ")"

/-- Items in parentheses, with a comma after a single one. -/
def oneLineTuple : List String → String
  | [item] => "(" ++ item ++ ",)"
  | items => "(" ++ String.intercalate ", " items ++ ")"

/-- An expression on one line. -/
def Expr.oneLine : Expr → String
  | literal v _ => oneLineNode "LiteralExpression" [("value", v.written)]
  | name id => oneLineNode "IdentifierExpression" [("name", Text.quoted id.name)]
  | binary op l r _ =>
    oneLineNode "BinaryExpression"
      [("op", Text.quoted op.spelling), ("left", l.oneLine), ("right", r.oneLine)]
  | unary op e _ =>
    oneLineNode "UnaryExpression" [("op", Text.quoted op.spelling), ("operand", e.oneLine)]

/-- A statement on one line. -/
def Statement.oneLine : Statement → String
  | declaration n e _ =>
    oneLineNode "Declaration" [("name", Text.quoted n), ("initializer", e.oneLine)]
  | assignment id e _ =>
    oneLineNode "Assignment" [("target", (Expr.name id).oneLine), ("source", e.oneLine)]
  | print e _ => oneLineNode "PrintStatement" [("expression", e.oneLine)]

/-- A node on one line. -/
def Node.oneLine : Node → String
  | program p => oneLineNode "Program" [("statements", oneLineTuple (p.statements.map (·.oneLine)))]
  | statement s => s.oneLine
  | expr e => e.oneLine

end AelSyntax
