import AelSyntax.Grammar.Rules
import AelSyntax.Proofs.Grammar.Run
import AelSyntax.Proofs.Tree.Moving
import Mathlib.Tactic.Common

/-! # Reading moved tokens

Where the tokens stand makes no difference to the rules: on tokens that are moved they do what they
do on the tokens, and all that comes of it is moved (`Rule.Moves`). A rule made of others is of this
sort if these are. No token needs to be well formed, and nothing is asked of the map of places: it
may even take different places to the same one.

* `Rule.moves_program`: so it is with programs, at any limit. -/

namespace AelSyntax

variable (f : Place → Place)

/-! ### Cursors -/

/-- A cursor in front of moved tokens. -/
def Cursor.moved (c : Cursor) : Cursor :=
  ⟨c.rest.map (Token.moved f), f c.lastPlace, c.position, c.depth⟩

theorem Cursor.current_moved (c : Cursor) : (c.moved f).current = c.current.moved f := by
  show ((c.rest.map (Token.moved f)).head?.getD _) = _
  rw [current]
  cases c.rest <;> rfl

theorem headKind_map_moved (ts : List Token) :
    headKind (ts.map (Token.moved f)) = headKind ts := by
  cases ts <;> rfl

theorem Cursor.advanced_moved (c : Cursor) :
    (c.moved f).advanced = c.advanced.moved f := by
  rw [advanced, advanced, moved, moved, List.map_tail]

/-! ### Rules -/

namespace Rule

/-- How a run ends, moved. -/
def endMoved {α β : Type} (m : α → β) :
    EStateM.Result Fault Cursor α → EStateM.Result Fault Cursor β
  | .ok a c => .ok (m a) (c.moved f)
  | .error e c => .error (e.moved f) (c.moved f)

/-- On moved tokens one rule does what another one does on the tokens. -/
def Moves {α β : Type} (m : α → β) (r : Rule α) (r' : Rule β) : Prop :=
  ∀ c : Cursor, r' (c.moved f) = endMoved f m (r c)

section Parts

variable {f} {α α' β β' : Type} {m : α → α'} {m' : β → β'} {r s : Rule α} {r' s' : Rule α'}

theorem moves_pure (m : α → α') (a : α) : Moves f m (pure a) (pure (m a)) := fun _ => rfl

theorem Moves.bind (h : Moves f m r r') {g : α → Rule β} {g' : α' → Rule β'}
    (hg : ∀ a, Moves f m' (g a) (g' (m a))) : Moves f m' (r >>= g) (r' >>= g') := by
  intro c
  have hr := h c
  cases hrun : r c with
  | ok a c₁ =>
    rw [hrun] at hr
    rw [bind_of_ok hrun, bind_of_ok hr]
    exact hg a c₁
  | error e c₁ =>
    rw [hrun] at hr
    rw [bind_of_error hrun, bind_of_error hr]
    rfl

theorem Moves.ite (hr : Moves f m r r') (hs : Moves f m s s') (p : Prop) [Decidable p] :
    Moves f m (if p then r else s) (if p then r' else s') := by
  split_ifs
  · exact hr
  · exact hs

theorem moves_current : Moves f (Token.moved f) current current := by
  intro c
  show EStateM.Result.ok _ _ = _
  rw [c.current_moved]
  rfl

theorem moves_advance : Moves f (Token.moved f) advance advance := by
  intro c
  show EStateM.Result.ok _ _ = _
  rw [c.current_moved, c.advanced_moved]
  rfl

theorem moves_remaining : Moves f id remaining remaining := by
  intro c
  show EStateM.Result.ok (c.rest.map _).length _ = _
  rw [List.length_map]
  rfl

theorem moves_refuse (m : α → α') (what : String) :
    Moves f m (refuse what) (refuse what) := by
  intro c
  show EStateM.Result.error _ _ = _
  rw [c.current_moved, Token.refusal_moved]
  rfl

theorem moves_take (kinds : List Kind) (what : String) :
    Moves f (Token.moved f) (take kinds what) (take kinds what) := by
  intro c
  rw [take, take, c.current_moved, c.advanced_moved, Token.kind_moved, Token.refusal_moved]
  split_ifs <;> rfl

theorem moves_tooDeep (m : α → α') : Moves f m tooDeep tooDeep := by
  intro c
  rw [tooDeep, tooDeep, c.current_moved, Token.kind_moved, Token.refusal_moved]
  split_ifs <;> rfl

theorem Moves.nested (h : Moves f m r r') : Moves f m (nested r) (nested r') := by
  intro c
  have hr : r' { c.moved f with depth := (c.moved f).depth + 1 } = _ :=
    h { c with depth := c.depth + 1 }
  cases hrun : r { c with depth := c.depth + 1 } with
  | ok a c₁ =>
    rw [hrun] at hr
    rw [nested_of_ok hrun, nested_of_ok hr]
    rfl
  | error e c₁ =>
    rw [hrun] at hr
    rw [nested_of_error hrun, nested_of_error hr]
    rfl

/-! ### Building -/

theorem moves_binary (spelling : String) (left right : Expr) (p : Place) :
    Moves f (Expr.moved f) (build (Expr.ofBinary spelling left right p))
      (build (Expr.ofBinary spelling (left.moved f) (right.moved f) (f p))) := by
  intro c
  rw [Expr.ofBinary, Expr.ofBinary]
  cases BinaryOp.ofSpelling? spelling <;> rfl

theorem moves_unary (spelling : String) (operand : Expr) (p : Place) :
    Moves f (Expr.moved f) (build (Expr.ofUnary spelling operand p))
      (build (Expr.ofUnary spelling (operand.moved f) (f p))) := by
  intro c
  rw [Expr.ofUnary, Expr.ofUnary]
  cases UnaryOp.ofSpelling? spelling <;> rfl

theorem moves_numeral (text : String) (p : Place) :
    Moves f (Expr.moved f) (build (Expr.ofNumeral text p))
      (build (Expr.ofNumeral text (f p))) := by
  intro c
  rw [Expr.ofNumeral, Expr.ofNumeral]
  cases Binary64.ofNumeral text with
  | error e => rfl
  | ok v =>
    show build (Expr.ofValue v (f p)) _ = endMoved f _ (build (Expr.ofValue v p) c)
    rw [Expr.ofValue, Expr.ofValue]
    split_ifs <;> rfl

end Parts

/-! ### Expressions -/

section Expressions

variable {f} {operand operand' : Rule Expr}

theorem moves_chainWithin (kinds : List Kind) (h : Moves f (Expr.moved f) operand operand')
    (n : Nat) : ∀ left : Expr, Moves f (Expr.moved f) (chainWithin kinds operand n left)
      (chainWithin kinds operand' n (left.moved f)) := by
  induction n with
  | zero => exact fun left => moves_pure _ left
  | succ n ih =>
    intro left
    rw [chainWithin, chainWithin]
    refine moves_current.bind fun t => Moves.ite ?_ (moves_pure _ left) _
    refine moves_advance.bind fun op => h.bind fun right => Moves.bind ?_ ih
    rw [Expr.place_moved]
    exact moves_binary op.text left right left.place

theorem moves_chain (kinds : List Kind) (h : Moves f (Expr.moved f) operand operand') :
    Moves f (Expr.moved f) (chain kinds operand) (chain kinds operand') :=
  h.bind fun left => moves_remaining.bind fun n => moves_chainWithin kinds h n left

theorem moves_comparison (h : Moves f (Expr.moved f) operand operand') :
    Moves f (Expr.moved f) (comparison operand) (comparison operand') := by
  refine h.bind fun left => moves_current.bind fun t => Moves.ite ?_ (moves_pure _ left) _
  refine moves_advance.bind fun op => h.bind fun right => ?_
  rw [Expr.place_moved]
  exact moves_binary op.text left right left.place

theorem moves_term (h : Moves f (Expr.moved f) operand operand') :
    Moves f (Expr.moved f) (term operand) (term operand') := by
  refine moves_current.bind fun t => Moves.ite ?_ h _
  exact moves_advance.bind fun op => h.bind fun e => moves_unary op.text e op.place

theorem moves_raised {base base' : Rule Expr} (hbase : Moves f (Expr.moved f) base base')
    (h : Moves f (Expr.moved f) operand operand') :
    Moves f (Expr.moved f) (raised base operand) (raised base' operand') := by
  refine hbase.bind fun left => moves_current.bind fun t => Moves.ite ?_ (moves_pure _ left) _
  refine moves_advance.bind fun op => h.bind fun e => ?_
  rw [Expr.place_moved]
  exact moves_binary op.text left e left.place

theorem moves_primary {inside inside' : Rule Expr}
    (hinside : Moves f (Expr.moved f) inside inside')
    (h : Moves f (Expr.moved f) operand operand') :
    Moves f (Expr.moved f) (primary inside operand) (primary inside' operand') := by
  refine moves_current.bind fun t => ?_
  have happlied : Moves f (Expr.moved f)
      (advance >>= fun op => operand >>= fun e => build (Expr.ofUnary op.text e op.place))
      (advance >>= fun op => operand' >>= fun e => build (Expr.ofUnary op.text e op.place)) :=
    moves_advance.bind fun op => h.bind fun e => moves_unary op.text e op.place
  rw [Token.kind_moved]
  cases t.kind with
  | identifier => exact moves_advance.bind fun t => moves_pure _ (Expr.name ⟨t.text, t.place⟩)
  | number => exact moves_advance.bind fun t => moves_numeral t.text t.place
  | openParen =>
    exact moves_advance.bind fun _ => hinside.bind fun e =>
      (moves_take _ _).bind fun _ => moves_pure _ e
  | absWord => exact happlied
  | sqrtWord => exact happlied
  | _ => exact moves_refuse _ _

theorem moves_expressionOver (h : Moves f (Expr.moved f) operand operand') :
    Moves f (Expr.moved f) (expressionOver operand) (expressionOver operand') :=
  moves_comparison (moves_chain _ (moves_term (moves_chain _ h)))

theorem moves_powerWithin (room : Nat) :
    Moves f (Expr.moved f) (powerWithin room) (powerWithin room) := by
  induction room with
  | zero => exact moves_tooDeep _
  | succ room ih => exact (moves_raised (moves_primary (moves_expressionOver ih) ih) ih).nested

theorem moves_expression (limit : Nat) :
    Moves f (Expr.moved f) (expression limit) (expression limit) :=
  moves_expressionOver fun c => moves_powerWithin (limit - c.depth) c

end Expressions

/-! ### Statements -/

section Statements

variable {f} {expr : Rule Expr} {stmt : Rule Statement}

theorem moves_statement (h : Moves f (Expr.moved f) expr expr) :
    Moves f (Statement.moved f) (statement expr) (statement expr) := by
  refine moves_current.bind fun t => ?_
  rw [Token.kind_moved]
  cases t.kind with
  | letWord =>
    exact moves_advance.bind fun t => (moves_take _ _).bind fun name =>
      (moves_take _ _).bind fun _ => h.bind fun e =>
        moves_pure _ (Statement.declaration name.text e t.place)
  | identifier =>
    exact moves_advance.bind fun t => (moves_take _ _).bind fun _ =>
      h.bind fun e => moves_pure _ (Statement.assignment ⟨t.text, t.place⟩ e t.place)
  | printWord =>
    exact moves_advance.bind fun t => h.bind fun e => moves_pure _ (Statement.print e t.place)
  | _ => exact moves_refuse _ _

theorem moves_statementsWithin (h : Moves f (Statement.moved f) stmt stmt) (n : Nat) :
    Moves f (List.map (Statement.moved f)) (statementsWithin stmt n)
      (statementsWithin stmt n) := by
  induction n with
  | zero => exact moves_pure _ []
  | succ n ih =>
    refine moves_current.bind fun t => Moves.ite (moves_pure _ []) ?_ _
    exact h.bind fun s => ih.bind fun ss => moves_pure _ (s :: ss)

/-- **Programs of moved tokens are moved.** -/
theorem moves_program (limit : Nat) : Moves f (Program.moved f)
    (program (statement (expression limit))) (program (statement (expression limit))) := by
  have h := moves_statement (moves_expression (f := f) limit)
  refine moves_current.bind fun first => h.bind fun s => moves_remaining.bind fun n => ?_
  exact (moves_statementsWithin h n).bind fun ss => moves_pure _ (Program.mk (s :: ss) first.place)

end Statements

end Rule

end AelSyntax
