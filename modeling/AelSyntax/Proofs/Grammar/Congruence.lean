import AelSyntax.Proofs.Grammar.Run
import Mathlib.Tactic.Common

/-! # Relations that the grammar respects

A relation between rules that holds of the steps at a cursor with themselves, and of two sequences
whose parts are related, is a congruence (`Rule.Congruence`). Every rule of the grammar is made of
such steps and of the rules it refers to, so it is related to itself as soon as those are. Only the
levels of nesting are left out: a congruence says nothing about going one level deeper.

* `Congruence.expressionOver`, `Congruence.program`: expressions and programs of related parts. -/

namespace AelSyntax

namespace Rule

/-- A relation between rules that is respected by sequences and holds of each step with itself. -/
structure Congruence where
  rel : ∀ {α : Type}, Rule α → Rule α → Prop
  pure : ∀ {α : Type} (a : α), rel (pure a) (pure a)
  bind : ∀ {α β : Type} {r r' : Rule α} {g g' : α → Rule β}, rel r r' →
    (∀ a, rel (g a) (g' a)) → rel (r >>= g) (r' >>= g')
  current : rel current current
  advance : rel advance advance
  remaining : rel remaining remaining
  refuse : ∀ {α : Type} (what : String), rel (refuse what : Rule α) (refuse what)
  take : ∀ (kinds : List Kind) (what : String), rel (take kinds what) (take kinds what)
  build : ∀ {α : Type} (x : Except Malformed α), rel (build x) (build x)

namespace Congruence

variable (C : Congruence)

/-! ### Expressions -/

section Expressions

variable {C} {operand operand' : Rule Expr}

theorem chainWithin (kinds : List Kind) (h : C.rel operand operand') (n : Nat) :
    ∀ left : Expr, C.rel (chainWithin kinds operand n left) (chainWithin kinds operand' n left) := by
  induction n with
  | zero => exact fun left => C.pure left
  | succ n ih =>
    intro left
    refine C.bind C.current fun t => ?_
    split_ifs
    · exact C.bind C.advance fun op => C.bind h fun right => C.bind (C.build _) ih
    · exact C.pure left

theorem chain (kinds : List Kind) (h : C.rel operand operand') :
    C.rel (chain kinds operand) (chain kinds operand') :=
  C.bind h fun left => C.bind C.remaining fun n => chainWithin kinds h n left

theorem comparison (h : C.rel operand operand') :
    C.rel (comparison operand) (comparison operand') := by
  refine C.bind h fun left => C.bind C.current fun t => ?_
  split_ifs
  · exact C.bind C.advance fun op => C.bind h fun right => C.build _
  · exact C.pure left

theorem term (h : C.rel operand operand') : C.rel (term operand) (term operand') := by
  refine C.bind C.current fun t => ?_
  split_ifs
  · exact C.bind C.advance fun op => C.bind h fun e => C.build _
  · exact h

theorem expressionOver (h : C.rel operand operand') :
    C.rel (expressionOver operand) (expressionOver operand') :=
  comparison (chain _ (term (chain _ h)))

theorem raised {base base' : Rule Expr} (hbase : C.rel base base') (h : C.rel operand operand') :
    C.rel (raised base operand) (raised base' operand') := by
  refine C.bind hbase fun left => C.bind C.current fun t => ?_
  split_ifs
  · exact C.bind C.advance fun op => C.bind h fun e => C.build _
  · exact C.pure left

theorem primary {inside inside' : Rule Expr} (hinside : C.rel inside inside')
    (h : C.rel operand operand') : C.rel (primary inside operand) (primary inside' operand') := by
  refine C.bind C.current fun t => ?_
  have happlied : C.rel
      (Rule.advance >>= fun op => operand >>= fun e =>
        Rule.build (Expr.ofUnary op.text e op.place))
      (Rule.advance >>= fun op => operand' >>= fun e =>
        Rule.build (Expr.ofUnary op.text e op.place)) :=
    C.bind C.advance fun op => C.bind h fun e => C.build _
  cases t.kind with
  | identifier => exact C.bind C.advance fun t => C.pure _
  | number => exact C.bind C.advance fun t => C.build _
  | openParen =>
    exact C.bind C.advance fun _ => C.bind hinside fun e => C.bind (C.take _ _) fun _ => C.pure e
  | absWord => exact happlied
  | sqrtWord => exact happlied
  | _ => exact C.refuse _

end Expressions

/-! ### Statements -/

section Statements

variable {C} {expr expr' : Rule Expr} {stmt stmt' : Rule Statement}

theorem statement (h : C.rel expr expr') : C.rel (statement expr) (statement expr') := by
  refine C.bind C.current fun t => ?_
  cases t.kind with
  | letWord =>
    exact C.bind C.advance fun t => C.bind (C.take _ _) fun name => C.bind (C.take _ _) fun _ =>
      C.bind h fun e => C.pure _
  | identifier =>
    exact C.bind C.advance fun t => C.bind (C.take _ _) fun _ => C.bind h fun e => C.pure _
  | printWord => exact C.bind C.advance fun t => C.bind h fun e => C.pure _
  | _ => exact C.refuse _

theorem statementsWithin (h : C.rel stmt stmt') (n : Nat) :
    C.rel (statementsWithin stmt n) (statementsWithin stmt' n) := by
  induction n with
  | zero => exact C.pure []
  | succ n ih =>
    refine C.bind C.current fun t => ?_
    split_ifs
    · exact C.pure []
    · exact C.bind h fun s => C.bind ih fun ss => C.pure _

theorem program (h : C.rel stmt stmt') : C.rel (program stmt) (program stmt') :=
  C.bind C.current fun _ => C.bind h fun _ => C.bind C.remaining fun n =>
    C.bind (statementsWithin h n) fun _ => C.pure _

end Statements

end Congruence

end Rule

end AelSyntax
