import AelSyntax.Fault

/-! # Cursors and rules

A cursor stands in a list of tokens. Behind the last token it stands at an end of the text without
end, which begins where the last token ends. It counts the tokens it has passed, and the powers that
are being read, which are the levels of nesting.

A rule of the grammar reads tokens from a cursor on. Whether it succeeds or not, it tells where the
cursor is then. -/

namespace AelSyntax

/-- A place in a list of tokens. -/
structure Cursor where
  rest : List Token
  lastPlace : Place
  position : Nat
  depth : Nat
deriving DecidableEq

namespace Cursor

/-- The cursor at the first of the tokens. -/
def ofTokens (ts : List Token) : Cursor :=
  ⟨ts, (ts.getLast?.map Token.endPlace).getD .start, 0, 0⟩

/-- The token at the cursor. -/
def current (c : Cursor) : Token := c.rest.head?.getD (.finish c.lastPlace)

/-- The cursor behind the current token. -/
def advanced (c : Cursor) : Cursor := ⟨c.rest.tail, c.lastPlace, c.position + 1, c.depth⟩

end Cursor

/-- A rule of the grammar. -/
abbrev Rule (α : Type) := EStateM Fault Cursor α

namespace Rule

/-- The token at the cursor. -/
def current : Rule Token := fun c => .ok c.current c

/-- The current token; the cursor goes behind it. -/
def advance : Rule Token := fun c => .ok c.current c.advanced

/-- The number of tokens left. -/
def remaining : Rule Nat := fun c => .ok c.rest.length c

/-- The current token is not what is expected. -/
def refuse {α : Type} (expected : String) : Rule α := fun c => .error (c.current.refusal expected) c

/-- The current token, which has to be of one of the kinds; the cursor goes behind it. -/
def take (kinds : List Kind) (expected : String) : Rule Token := fun c =>
  if c.current.kind ∈ kinds then .ok c.current c.advanced
  else .error (c.current.refusal expected) c

/-- A node that may be refused. -/
def build {α : Type} : Except Malformed α → Rule α
  | .ok a => fun c => .ok a c
  | .error m => fun c => .error (.malformed m) c

/-- A rule one level deeper. -/
def nested {α : Type} (rule : Rule α) : Rule α := fun c =>
  match rule { c with depth := c.depth + 1 } with
  | .ok a c' => .ok a { c' with depth := c'.depth - 1 }
  | .error e c' => .error e { c' with depth := c'.depth - 1 }

/-- The refusal of a level too many. -/
def tooDeep {α : Type} : Rule α := fun c =>
  if c.current.kind = .unknown then .error (c.current.refusal "an expression") c
  else .error (.refused .nestedTooDeeply c.current.place) c

end Rule

end AelSyntax
