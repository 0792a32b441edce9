import AelSyntax.Grammar.Cursor
import AelSyntax.Token.Pieces

/-! # The grammar

    program    = statement, { statement }, end of text
    statement  = "let", name, "=", expression | name, "=", expression | "print", expression
    expression = sum, [ "==", sum ]
    sum        = term, { ( "+" | "-" ), term }
    term       = [ "-" ], product
    product    = power, { ( "*" | "/" | "%" ), power }
    power      = primary, [ "**", power ]
    primary    = name | number | "(", expression, ")" | ( "abs" | "sqrt" ), power

Sums and products lean to the left, powers to the right. Every level of nesting passes through a
power, so the limit on nesting is kept there. Each rule is written over the rules it refers to; the
circle is closed in `powerWithin`, by recursion on the levels that are left. -/

namespace AelSyntax

namespace Rule

/-! ### Expressions -/

/-- Operands of one tier with operators between them, leaning to the left, behind a first operand.
The number bounds the operators that are read. -/
def chainWithin (kinds : List Kind) (operand : Rule Expr) : Nat → Expr → Rule Expr
  | 0, left => pure left
  | n + 1, left => do
    if (← current).kind ∈ kinds then
      let op ← advance
      let right ← operand
      let joined ← build (Expr.ofBinary op.text left right left.place)
      chainWithin kinds operand n joined
    else
      pure left

/-- Operands of one tier with operators between them, leaning to the left. -/
def chain (kinds : List Kind) (operand : Rule Expr) : Rule Expr := do
  let left ← operand
  let bound ← remaining
  chainWithin kinds operand bound left

/-- A sum, or a comparison of two. -/
def comparison (sum : Rule Expr) : Rule Expr := do
  let left ← sum
  if (← current).kind = .equals then
    let op ← advance
    let right ← sum
    build (Expr.ofBinary op.text left right left.place)
  else
    pure left

/-- Terms with plus and minus signs between them. -/
def sum (term : Rule Expr) : Rule Expr := chain [.plus, .minus] term

/-- A product, or the negation of one. -/
def term (product : Rule Expr) : Rule Expr := do
  if (← current).kind = .minus then
    let op ← advance
    let operand ← product
    build (Expr.ofUnary op.text operand op.place)
  else
    product

/-- Powers with multiplications, divisions and remainders between them. -/
def product (power : Rule Expr) : Rule Expr := chain [.times, .divide, .modulo] power

/-- A primary with an optional exponent. -/
def raised (primary exponent : Rule Expr) : Rule Expr := do
  let base ← primary
  if (← current).kind = .power then
    let op ← advance
    let e ← exponent
    build (Expr.ofBinary op.text base e base.place)
  else
    pure base

/-- A name, a number, an expression in parentheses, or a function with its operand. -/
def primary (inside operand : Rule Expr) : Rule Expr := do
  match (← current).kind with
  | .identifier =>
    let t ← advance
    pure (.name ⟨t.text, t.place⟩)
  | .number =>
    let t ← advance
    build (Expr.ofNumeral t.text t.place)
  | .openParen =>
    let _ ← advance
    let e ← inside
    let _ ← take [.closeParen] "')'"
    pure e
  | .absWord | .sqrtWord =>
    let op ← advance
    let e ← operand
    build (Expr.ofUnary op.text e op.place)
  | _ => refuse "an expression"

/-- An expression over the rule for powers. -/
def expressionOver (power : Rule Expr) : Rule Expr := comparison (sum (term (product power)))

/-- A power with at most so many levels of nesting. -/
def powerWithin : Nat → Rule Expr
  | 0 => tooDeep
  | room + 1 => fun c =>
    let inner := powerWithin room
    nested (raised (primary (expressionOver inner) inner) inner) c

/-- A power, with a limit on the levels of nesting. -/
def power (limit : Nat) : Rule Expr := fun c => powerWithin (limit - c.depth) c

/-- An expression, with a limit on the levels of nesting. -/
def expression (limit : Nat) : Rule Expr := expressionOver (power limit)

/-! ### Statements -/

/-- A declaration, an assignment or a print. -/
def statement (expr : Rule Expr) : Rule Statement := do
  match (← current).kind with
  | .letWord =>
    let t ← advance
    let name ← take [.identifier] "identifier"
    let _ ← take [.assign] "'='"
    let e ← expr
    pure (.declaration name.text e t.place)
  | .identifier =>
    let t ← advance
    let _ ← take [.assign] "'='"
    let e ← expr
    pure (.assignment ⟨t.text, t.place⟩ e t.place)
  | .printWord =>
    let t ← advance
    let e ← expr
    pure (.print e t.place)
  | _ => refuse "a statement ('let', 'print' or an assignment)"

/-- Statements up to the end of the text. The number bounds the statements that are read. -/
def statementsWithin (stmt : Rule Statement) : Nat → Rule (List Statement)
  | 0 => pure []
  | n + 1 => do
    if (← current).kind = .finish then
      pure []
    else
      let s ← stmt
      let ss ← statementsWithin stmt n
      pure (s :: ss)

/-- A program: a statement, and more up to the end of the text. -/
def program (stmt : Rule Statement) : Rule Program := do
  let first ← current
  let s ← stmt
  let bound ← remaining
  let ss ← statementsWithin stmt bound
  pure ⟨s :: ss, first.place⟩

end Rule

/-! ### Programs -/

/-- The levels of nesting that a program may have. -/
def nestingLimit : Nat := 100

/-- The program that a list of tokens is, with a limit on the levels of nesting. -/
def Program.ofTokensWithin (limit : Nat) (ts : List Token) : Except Fault Program :=
  match Rule.program (Rule.statement (Rule.expression limit)) (.ofTokens ts) with
  | .ok p _ => .ok p
  | .error e _ => .error e

/-- The program that a list of tokens is. -/
def Program.ofTokens (ts : List Token) : Except Fault Program := ofTokensWithin nestingLimit ts

/-- The program that a text is. -/
def Program.ofText (source : String) : Except Fault Program := ofTokens (tokensOf source)

/-- The tokens of a text, if each of its characters belongs to one. -/
def cleanTokens (source : String) : Except Fault (List Token) :=
  let ts := tokensOf source
  match ts.find? fun t => t.kind = .unknown with
  | some t => .error (t.refusal "a token")
  | none => .ok ts

end AelSyntax
