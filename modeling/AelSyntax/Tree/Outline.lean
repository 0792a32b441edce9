import AelSyntax.Tree.Basic

/-! # Outlines of trees

An outline has one line for every node, from the outside in and from left to right. A line shows the
number of the line, the field that holds the node, the kind of the node and its texts and numbers;
it is indented by two spaces for every level. Texts stand between single quotes as they are, and
numbers without a fraction are written in all their digits. -/

namespace AelSyntax

/-! ### Texts and numbers -/

/-- A text in an outline. -/
def outlineText (s : String) : String := "'" ++ s ++ "'"

/-- A number in an outline. -/
def outlineNumber (x : Binary64) : String :=
  match x.whole? with
  | some n => if x.isBelowZero then "-" ++ toString n else toString n
  | none => x.written

/-! ### Lines -/

/-- The line of a node, not yet numbered. -/
def outlineLine (depth : Nat) (label kind : String) (scalars : List (String × String)) : String :=
  String.ofList (List.replicate (2 * depth) ' ') ++ label ++ ": " ++ kind ++
    String.join (scalars.map fun s => " " ++ s.1 ++ "=" ++ s.2)

/-- The lines of an expression in a field. -/
def Expr.outline (depth : Nat) (label : String) : Expr → List String
  | literal v _ => [outlineLine depth label "LiteralExpression" [("value", outlineNumber v)]]
  | name id => [outlineLine depth label "IdentifierExpression" [("name", outlineText id.name)]]
  | binary op l r _ =>
    outlineLine depth label "BinaryExpression" [("op", outlineText op.spelling)] ::
      (l.outline (depth + 1) "left" ++ r.outline (depth + 1) "right")
  | unary op e _ =>
    outlineLine depth label "UnaryExpression" [("op", outlineText op.spelling)] ::
      e.outline (depth + 1) "operand"

/-- The lines of a statement in a field. -/
def Statement.outline (depth : Nat) (label : String) : Statement → List String
  | declaration n e _ =>
    outlineLine depth label "Declaration" [("name", outlineText n)] ::
      e.outline (depth + 1) "initializer"
  | assignment id e _ =>
    outlineLine depth label "Assignment" [] ::
      ((Expr.name id).outline (depth + 1) "target" ++ e.outline (depth + 1) "source")
  | print e _ =>
    outlineLine depth label "PrintStatement" [] :: e.outline (depth + 1) "expression"

/-- The field that holds a statement of a program. -/
def statementLabel (i : Nat) : String := "statements[" ++ toString i ++ "]"

/-- The lines of a program in a field. -/
def Program.outline (label : String) (p : Program) : List String :=
  outlineLine 0 label "Program" [] ::
    p.statements.zipIdx.flatMap fun s => s.1.outline 1 (statementLabel s.2)

/-- The lines of a node in a field. -/
def Node.outline (label : String) : Node → List String
  | program p => p.outline label
  | statement s => s.outline 0 label
  | expr e => e.outline 0 label

/-! ### Numbered lines -/

/-- A line with its number, right-aligned over four columns. -/
def numberedLine (n : Nat) (line : String) : String :=
  let digits := toString n
  String.ofList (List.replicate (4 - digits.length) ' ') ++ digits ++ " | " ++ line

/-- Lines with their numbers, counted from one. -/
def numbered (lines : List String) : String :=
  String.intercalate "\n" (lines.zipIdx.map fun l => numberedLine (l.2 + 1) l.1)

/-- The outline of a node in a field. -/
def Node.picture (label : String) (n : Node) : String := numbered (n.outline label)

/-- The outline of a program. -/
def Program.picture (p : Program) : String := (Node.program p).picture "program"

end AelSyntax
