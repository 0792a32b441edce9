import AelSyntax.Number.Numeral
import AelSyntax.Number.Written
import AelSyntax.Text.Place
import AelSyntax.Text.Quoted

/-! # Syntax trees

A program is a list of statements, a statement declares a name, assigns to one or prints, and an
expression is a literal, a name, or an operator with its operands. Every node keeps a place.

A tree is built through the functions at the end of the module: they take the spelling of an
operator and refuse an unknown one, and they refuse a literal below zero, which is to be written as
a negation. Places are no part of what a tree means: `sameTree` compares all but them. -/

namespace AelSyntax

/-! ### Operators -/

/-- The operators with two operands. -/
inductive BinaryOp where
  | equals
  | plus
  | minus
  | times
  | divide
  | modulo
  | power
deriving DecidableEq

/-- The operators with one operand. -/
inductive UnaryOp where
  | negate
  | absolute
  | squareRoot
deriving DecidableEq

namespace BinaryOp

/-- How an operator is written. -/
def spelling : BinaryOp → String
  | equals => "=="
  | plus => "+"
  | minus => "-"
  | times => "*"
  | divide => "/"
  | modulo => "%"
  | power => "**"

/-- The operator with a spelling. -/
def ofSpelling? (s : String) : Option BinaryOp :=
  [equals, plus, minus, times, divide, modulo, power].find? fun o => o.spelling == s

theorem ofSpelling?_spelling (o : BinaryOp) : ofSpelling? o.spelling = some o := by
  cases o <;> rfl

end BinaryOp

namespace UnaryOp

/-- How an operator is written. -/
def spelling : UnaryOp → String
  | negate => "-"
  | absolute => "abs"
  | squareRoot => "sqrt"

/-- The operator with a spelling. -/
def ofSpelling? (s : String) : Option UnaryOp :=
  [negate, absolute, squareRoot].find? fun o => o.spelling == s

theorem ofSpelling?_spelling (o : UnaryOp) : ofSpelling? o.spelling = some o := by
  cases o <;> rfl

end UnaryOp

/-! ### Nodes -/

/-- A name where it is used. -/
structure Identifier where
  name : String
  place : Place
deriving DecidableEq

/-- An expression. -/
inductive Expr where
  | literal (value : Binary64) (place : Place)
  | name (id : Identifier)
  | binary (op : BinaryOp) (left right : Expr) (place : Place)
  | unary (op : UnaryOp) (operand : Expr) (place : Place)
deriving DecidableEq

/-- A statement. -/
inductive Statement where
  | declaration (name : String) (initializer : Expr) (place : Place)
  | assignment (target : Identifier) (source : Expr) (place : Place)
  | print (expression : Expr) (place : Place)
deriving DecidableEq

/-- A program. -/
structure Program where
  statements : List Statement
  place : Place
deriving DecidableEq

/-- A node of any sort. -/
inductive Node where
  | program (p : Program)
  | statement (s : Statement)
  | expr (e : Expr)
deriving DecidableEq

namespace Expr

/-- The place of an expression. -/
def place : Expr → Place
  | literal _ p => p
  | name id => id.place
  | binary _ _ _ p => p
  | unary _ _ p => p

/-- The kind of an expression. -/
def kind : Expr → String
  | literal .. => "LiteralExpression"
  | name .. => "IdentifierExpression"
  | binary .. => "BinaryExpression"
  | unary .. => "UnaryExpression"

/-- The operands of an expression, from left to right. -/
def operands : Expr → List Expr
  | literal .. => []
  | name .. => []
  | binary _ l r _ => [l, r]
  | unary _ e _ => [e]

/-- An expression and all expressions inside it, from the outside in and from left to right. -/
def walk : Expr → List Expr
  | literal v p => [literal v p]
  | name id => [name id]
  | binary op l r p => binary op l r p :: (l.walk ++ r.walk)
  | unary op e p => unary op e p :: e.walk

end Expr

namespace Statement

/-- The place of a statement. -/
def place : Statement → Place
  | declaration _ _ p => p
  | assignment _ _ p => p
  | print _ p => p

/-- The kind of a statement. -/
def kind : Statement → String
  | declaration .. => "Declaration"
  | assignment .. => "Assignment"
  | print .. => "PrintStatement"

/-- The expressions of a statement. -/
def expressions : Statement → List Expr
  | declaration _ e _ => [e]
  | assignment id e _ => [.name id, e]
  | print e _ => [e]

end Statement

namespace Node

/-- The kind of a node. -/
def kind : Node → String
  | program _ => "Program"
  | statement s => s.kind
  | expr e => e.kind

/-- The place of a node. -/
def place : Node → Place
  | program p => p.place
  | statement s => s.place
  | expr e => e.place

/-- The nodes directly below a node, from left to right. -/
def children : Node → List Node
  | program p => p.statements.map statement
  | statement s => s.expressions.map expr
  | expr e => e.operands.map expr

/-- The nodes of a statement, from the outside in and from left to right. -/
def ofStatement (s : Statement) : List Node :=
  statement s :: (s.expressions.flatMap Expr.walk).map expr

/-- A node and all nodes below it, from the outside in and from left to right. -/
def walk : Node → List Node
  | program p => program p :: p.statements.flatMap ofStatement
  | statement s => ofStatement s
  | expr e => e.walk.map expr

end Node

/-! ### Equality without places -/

namespace Expr

/-- Two expressions are the same but for their places; literals are compared by their values. -/
def sameTree : Expr → Expr → Bool
  | literal v _, literal v' _ => v.sameValue v'
  | name id, name id' => id.name == id'.name
  | binary op l r _, binary op' l' r' _ => op == op' && l.sameTree l' && r.sameTree r'
  | unary op e _, unary op' e' _ => op == op' && e.sameTree e'
  | _, _ => false

end Expr

/-- Two statements are the same but for their places. -/
def Statement.sameTree : Statement → Statement → Bool
  | declaration n e _, declaration n' e' _ => n == n' && e.sameTree e'
  | assignment id e _, assignment id' e' _ => id.name == id'.name && e.sameTree e'
  | print e _, print e' _ => e.sameTree e'
  | _, _ => false

/-- Two lists have the same length, and each member of one is the same as its partner but for the
places. -/
def sameStatements : List Statement → List Statement → Bool
  | [], [] => true
  | s :: ss, s' :: ss' => s.sameTree s' && sameStatements ss ss'
  | _, _ => false

/-- Two nodes are the same but for their places. -/
def Node.sameTree : Node → Node → Bool
  | program p, program p' => sameStatements p.statements p'.statements
  | statement s, statement s' => s.sameTree s'
  | expr e, expr e' => e.sameTree e'
  | _, _ => false

/-! ### Building -/

/-- Why a node cannot be built. -/
inductive Malformed where
  | unknownBinary (spelling : String)
  | unknownUnary (spelling : String)
  | literalBelowZero (value : Binary64)
  | noNumeral (text : String)
deriving DecidableEq

/-- The message for a node that cannot be built. -/
def Malformed.message : Malformed → String
  | unknownBinary s => "Unknown binary operator: " ++ Text.quoted s
  | unknownUnary s => "Unknown unary operator: " ++ Text.quoted s
  | literalBelowZero v =>
    "Literal values are non-negative, got " ++ v.written ++
      "; use UnaryExpression('-', ...) for negation"
  | noNumeral s => "could not convert string to float: " ++ Text.quoted s

/-- The value of a numeral. -/
def Binary64.ofNumeral (text : String) : Except Malformed Binary64 :=
  match Numeral.read text with
  | some v => .ok v
  | none => .error (.noNumeral text)

namespace Expr

/-- The literal of a value that is not below zero. -/
def ofValue (v : Binary64) (p : Place) : Except Malformed Expr :=
  if v.isBelowZero then .error (.literalBelowZero v) else .ok (.literal v p)

/-- The literal of a numeral. -/
def ofNumeral (text : String) (p : Place) : Except Malformed Expr := do
  ofValue (← Binary64.ofNumeral text) p

/-- The expression of an operator with two operands. -/
def ofBinary (spelling : String) (left right : Expr) (p : Place) : Except Malformed Expr :=
  match BinaryOp.ofSpelling? spelling with
  | some op => .ok (.binary op left right p)
  | none => .error (.unknownBinary spelling)

/-- The expression of an operator with one operand. -/
def ofUnary (spelling : String) (operand : Expr) (p : Place) : Except Malformed Expr :=
  match UnaryOp.ofSpelling? spelling with
  | some op => .ok (.unary op operand p)
  | none => .error (.unknownUnary spelling)

end Expr

end AelSyntax
