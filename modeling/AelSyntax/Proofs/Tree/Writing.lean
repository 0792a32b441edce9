import AelSyntax.Proofs.Token.Longest
import AelSyntax.Number.Numeral
import AelSyntax.Tree.Basic

/-! # Ways to write a tree

Every expression has a level, which says how tightly it holds together, and every place in a tree
requires one. `Expr.Written` holds of the lexemes that an expression may be written with at a place:
where its level is below the one required there are parentheses around it, and anywhere there may be
more of them. It also lists the nestings of the names and numbers, from left to right: one more than
the parentheses, the operands of functions and the exponents that they stand in. -/

namespace AelSyntax

/-! ### Levels -/

namespace BinaryOp

/-- How tightly an operator with two operands binds; names and numbers are at level 5. -/
def level : BinaryOp → Nat
  | equals => 0
  | plus | minus => 1
  | times | divide | modulo => 3
  | power => 4

/-- The level that is required of a left operand. -/
def leftLevel : BinaryOp → Nat
  | equals => 1
  | plus | minus => 1
  | times | divide | modulo => 3
  | power => 5

/-- The level that is required of a right operand. -/
def rightLevel : BinaryOp → Nat
  | equals => 1
  | plus | minus => 2
  | times | divide | modulo => 4
  | power => 4

/-- The levels of nesting that a right operand is in: an exponent is in one. -/
def deepening : BinaryOp → Nat
  | power => 1
  | _ => 0

end BinaryOp

namespace UnaryOp

/-- How tightly an operator with one operand binds. -/
def level : UnaryOp → Nat
  | negate => 2
  | absolute | squareRoot => 4

/-- The level that is required of the operand. -/
def operandLevel : UnaryOp → Nat
  | negate => 3
  | absolute | squareRoot => 4

/-- The levels of nesting that the operand is in: that of a function is in one. -/
def deepening : UnaryOp → Nat
  | negate => 0
  | absolute | squareRoot => 1

end UnaryOp

/-! ### Writings -/

/-- At a place that requires a level, an expression may be written with these lexemes, whose names
and numbers have these nestings. -/
inductive Expr.Written : Nat → Expr → List String → List Nat → Prop
  | literal {level : Nat} {v v' : Binary64} {p : Place} {text : String}
    (htext : IsNumber text.toList) (hread : Numeral.read text = some v')
    (hsame : v.sameValue v' = true) : Written level (.literal v p) [text] [1]
  | name {level : Nat} {id : Identifier} (hname : Spells .identifier id.name.toList) :
    Written level (.name id) [id.name] [1]
  | binary {level : Nat} {op : BinaryOp} {l r : Expr} {p : Place} {ls rs : List String}
    {ms ns : List Nat} (hlevel : level ≤ op.level) (hl : Written op.leftLevel l ls ms)
    (hr : Written op.rightLevel r rs ns) :
    Written level (.binary op l r p) (ls ++ op.spelling :: rs) (ms ++ ns.map (· + op.deepening))
  | unary {level : Nat} {op : UnaryOp} {e : Expr} {p : Place} {ss : List String} {ns : List Nat}
    (hlevel : level ≤ op.level) (h : Written op.operandLevel e ss ns) :
    Written level (.unary op e p) (op.spelling :: ss) (ns.map (· + op.deepening))
  | group {level : Nat} {e : Expr} {ss : List String} {ns : List Nat} (h : Written 0 e ss ns) :
    Written level e ("(" :: (ss ++ [")"])) (ns.map (· + 1))

/-- A statement may be written with these lexemes, whose names and numbers in its expression have
these nestings. -/
inductive Statement.Written : Statement → List String → List Nat → Prop
  | declaration {name : String} {e : Expr} {p : Place} {ss : List String} {ns : List Nat}
    (hname : Spells .identifier name.toList) (h : e.Written 0 ss ns) :
    Written (.declaration name e p) ("let" :: name :: "=" :: ss) ns
  | assignment {id : Identifier} {e : Expr} {p : Place} {ss : List String} {ns : List Nat}
    (hname : Spells .identifier id.name.toList) (h : e.Written 0 ss ns) :
    Written (.assignment id e p) (id.name :: "=" :: ss) ns
  | print {e : Expr} {p : Place} {ss : List String} {ns : List Nat} (h : e.Written 0 ss ns) :
    Written (.print e p) ("print" :: ss) ns

/-- Statements may be written with these lexemes, one statement behind the other. -/
inductive StatementsWritten : List Statement → List String → List Nat → Prop
  | nil : StatementsWritten [] [] []
  | cons {a : Statement} {as : List Statement} {ss ss' : List String} {ns ns' : List Nat}
    (h : a.Written ss ns) (hmore : StatementsWritten as ss' ns') :
    StatementsWritten (a :: as) (ss ++ ss') (ns ++ ns')

end AelSyntax
