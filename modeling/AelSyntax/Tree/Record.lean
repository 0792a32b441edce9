import AelSyntax.Json.Basic
import AelSyntax.Tree.Basic

/-! # Trees as records

A node becomes a record of its kind, its fields in order and its place. -/

namespace AelSyntax

/-- A record of a kind, some fields and a place. -/
def nodeRecord (kind : String) (fields : List (String × Json)) (p : Place) : Json :=
  .record <|
    ("kind", .text kind) :: fields ++ [("line", .integer p.line), ("col", .integer p.column)]

/-- The record of an expression. -/
def Expr.record : Expr → Json
  | literal v p => nodeRecord "LiteralExpression" [("value", .real v)] p
  | name id => nodeRecord "IdentifierExpression" [("name", .text id.name)] id.place
  | binary op l r p =>
    nodeRecord "BinaryExpression"
      [("op", .text op.spelling), ("left", l.record), ("right", r.record)] p
  | unary op e p =>
    nodeRecord "UnaryExpression" [("op", .text op.spelling), ("operand", e.record)] p

/-- The record of a statement. -/
def Statement.record : Statement → Json
  | declaration n e p =>
    nodeRecord "Declaration" [("name", .text n), ("initializer", e.record)] p
  | assignment id e p =>
    nodeRecord "Assignment" [("target", (Expr.name id).record), ("source", e.record)] p
  | print e p => nodeRecord "PrintStatement" [("expression", e.record)] p

/-- The record of a program. -/
def Program.record (p : Program) : Json :=
  nodeRecord "Program" [("statements", .list (p.statements.map Statement.record))] p.place

/-- The record of a node. -/
def Node.record : Node → Json
  | program p => p.record
  | statement s => s.record
  | expr e => e.record

end AelSyntax
