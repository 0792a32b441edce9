import AelSyntax.Proofs.Grammar.Unrolling
import Mathlib.Tactic.Common

/-! # How deep rules call each other

The rules call each other by their names, and only a power counts levels of nesting. To see how many
calls are active at a time, let every call have a budget: the rule that is called may call others
with one less, and where there is nothing left, something else is done in place of the call
(`Rules.within`). A loop calls its rule again and again with the same budget. A budget lasts if
nothing depends on what is done without one (`Rules.Lasts`).

From one power to a power inside its parentheses there are six calls, and to any other power that it
calls there are fewer, so a power with some levels left needs six calls for each of them and one for
itself (`Rules.sameAt_power`).

* `Rules.lasts_program`: for a program the limit on nesting alone gives a budget that lasts, however
  many tokens there are and whatever they are, and no smaller one will do. -/

namespace AelSyntax

open Rule

/-- A rule for each name in the grammar. -/
structure Rules where
  program : Rule Program
  statement : Rule Statement
  expression : Rule Expr
  sum : Rule Expr
  term : Rule Expr
  product : Rule Expr
  power : Rule Expr
  primary : Rule Expr

namespace Rules

/-- The rules of the grammar, each of which calls others by their names. -/
def calling (limit : Nat) (g : Rules) : Rules where
  program := Rule.program g.statement
  statement := Rule.statement g.expression
  expression := comparison g.sum
  sum := Rule.sum g.term
  term := Rule.term g.product
  product := Rule.product g.power
  power := fun c => if c.depth < limit then nested (raised g.primary g.power) c else tooDeep c
  primary := Rule.primary g.expression g.power

/-- The rules of the grammar with a limit on nesting. -/
def ofLimit (limit : Nat) : Rules where
  program := Rule.program (Rule.statement (Rule.expression limit))
  statement := Rule.statement (Rule.expression limit)
  expression := Rule.expression limit
  sum := Rule.sum (Rule.term (Rule.product (Rule.power limit)))
  term := Rule.term (Rule.product (Rule.power limit))
  product := Rule.product (Rule.power limit)
  power := Rule.power limit
  primary := Rule.primary (Rule.expression limit) (Rule.power limit)

/-- The rules with a budget for calls, and what is done where there is none left. -/
def within (spent : Rules) (limit : Nat) : Nat → Rules
  | 0 => spent
  | budget + 1 => (within spent limit budget).calling limit

/-- A budget lasts for a list of tokens if it makes no difference what is done without one. -/
def Lasts (limit budget : Nat) (ts : List Token) : Prop :=
  ∀ spent spent' : Rules, (within spent limit budget).program (.ofTokens ts) =
    (within spent' limit budget).program (.ofTokens ts)

/-- **The rules call each other**, as they are named in the grammar. -/
theorem calling_ofLimit (limit : Nat) : (ofLimit limit).calling limit = ofLimit limit := by
  have hpower : (fun c => if c.depth < limit then
      nested (raised (Rule.primary (Rule.expression limit) (Rule.power limit)) (Rule.power limit)) c
      else tooDeep c) = Rule.power limit := funext fun c => (power_eq limit c).symm
  rw [calling, ofLimit]
  exact congrArg (Rules.mk _ _ _ _ _ _ · _) hpower

/-! ### Budgets that last -/

section Within

variable {limit : Nat} {c : Cursor} (spent : Rules)

theorem program_within (budget : Nat) : (within spent limit (budget + 6)).program =
    Rule.program (Rule.statement (expressionOver (within spent limit budget).power)) := rfl

/-- Up to the limit a power needs six calls to come to one in parentheses, two to come to the
operand of a function, and one to come to its exponent. -/
theorem power_within (budget : Nat) (h : c.depth < limit) :
    (within spent limit (budget + 6)).power c =
      nested (raised (Rule.primary (expressionOver (within spent limit budget).power)
        (within spent limit (budget + 4)).power) (within spent limit (budget + 5)).power) c :=
  if_pos h

/-- With one call for itself and six for each level that is left, a power does what it does without
a budget. -/
theorem sameAt_power (levels : Nat) : ∀ (depth more : Nat), limit - depth = levels →
    (sameAt depth).rel (Rule.power limit) (within spent limit (6 * levels + 1 + more)).power := by
  induction levels with
  | zero =>
    intro depth more hlevels
    refine ⟨(orderly_power limit).depth_endOf, fun c hc => ?_⟩
    have hdeep : ¬ c.depth < limit := by omega
    have hbudget : 6 * 0 + 1 + more = more + 1 := by omega
    rw [power_eq, if_neg hdeep, hbudget]
    exact (if_neg hdeep).symm
  | succ levels ih =>
    intro depth more hlevels
    refine ⟨(orderly_power limit).depth_endOf, fun c hc => ?_⟩
    have hlt : c.depth < limit := by omega
    -- what is not needed on the longest way to the next level is left over on the other ones
    have hinner (more : Nat) := ih (c.depth + 1) more (by omega)
    have hbody := Congruence.raised (Congruence.primary (Congruence.expressionOver (hinner more))
      (hinner (more + 4))) (hinner (more + 5))
    have hbudget : 6 * (levels + 1) + 1 + more = 6 * levels + 1 + more + 6 := by omega
    rw [power_eq, if_pos hlt, hbudget, power_within spent _ hlt]
    exact nested_congr (hbody.2 { c with depth := c.depth + 1 } rfl)

/-- Six calls for each level and seven more are enough for a program. -/
theorem program_within_eq (ts : List Token) :
    (within spent limit (6 * limit + 7)).program (.ofTokens ts) =
      (ofLimit limit).program (.ofTokens ts) := by
  have hpower := sameAt_power spent limit 0 0 (Nat.sub_zero limit)
  have hprogram := Congruence.program (Congruence.statement (Congruence.expressionOver hpower))
  exact (hprogram.2 (.ofTokens ts) rfl).symm

end Within

/-! ### Budgets that do not last -/

/-- Rules that do nothing but to fail. -/
def failing (e : Fault) : Rules where
  program := fun c => .error e c
  statement := fun c => .error e c
  expression := fun c => .error e c
  sum := fun c => .error e c
  term := fun c => .error e c
  product := fun c => .error e c
  power := fun c => .error e c
  primary := fun c => .error e c

section Opens

variable {limit levels : Nat} {c : Cursor} {e : Fault} {p : Place}

theorem kind_current_of_opens (h : c.rest = List.replicate levels (.opening p)) :
    c.current.kind ≠ .minus := by
  rw [c.kind_current, h]
  cases levels <;> exact nofun

/-- An expression that begins with no sign fails where its first power does. -/
theorem expressionOver_of_error {power : Rule Expr} {c' : Cursor} (hk : c.current.kind ≠ .minus)
    (h : power c = .error e c') : expressionOver power c = .error e c' := by
  have hproduct : Rule.product power c = .error e c' := bind_of_error h
  have hterm := (term_of_ne hk).trans hproduct
  exact bind_of_error (bind_of_error hterm)

/-- With six calls for each level that is left, and as many open parentheses, a power spends them
all. -/
theorem power_of_opens (e : Fault) (p : Place) (levels : Nat) : ∀ {c : Cursor},
    c.rest = List.replicate levels (.opening p) → c.depth + levels = limit →
      ∃ c', (within (failing e) limit (6 * levels)).power c = .error e c' := by
  induction levels with
  | zero => exact fun _ _ => ⟨_, rfl⟩
  | succ levels ih =>
    intro c hrest hdepth
    have hlt : c.depth < limit := by omega
    let deeper : Cursor := { c with depth := c.depth + 1 }
    have hopening : deeper.rest = .opening p :: List.replicate levels (.opening p) := hrest
    have hbehind : deeper.advanced.rest = List.replicate levels (.opening p) :=
      congrArg List.tail hopening
    have hdepth' : deeper.advanced.depth + levels = limit := by
      show c.depth + 1 + levels = limit
      omega
    obtain ⟨c', hinner⟩ := ih hbehind hdepth'
    have hinside := expressionOver_of_error (kind_current_of_opens hbehind) hinner
    have hprimary (operand : Rule Expr) :
        Rule.primary (expressionOver (within (failing e) limit (6 * levels)).power) operand deeper =
          .error e c' := (primary_of_opening hopening).trans (bind_of_error hinside)
    exact ⟨_, (power_within _ _ hlt).trans (nested_of_error (bind_of_error (hprimary _)))⟩

/-- Six calls for each level and six more are all spent where a print has as many open parentheses
as there are levels. -/
theorem program_of_opens (limit : Nat) (e : Fault) (p : Place) :
    ∃ c', (within (failing e) limit (6 * limit + 6)).program
      (.ofTokens (.printing p :: List.replicate limit (.opening p))) = .error e c' := by
  let start : Cursor := .ofTokens (.printing p :: List.replicate limit (.opening p))
  have hbehind : start.advanced.rest = List.replicate limit (.opening p) := rfl
  obtain ⟨c', hpower⟩ := power_of_opens e p limit hbehind (Nat.zero_add limit)
  have hexpr := expressionOver_of_error (kind_current_of_opens hbehind) hpower
  have hstatement := (statement_of_printing (c := start) rfl).trans (bind_of_error hexpr)
  refine ⟨c', ?_⟩
  rw [program_within, program_eq]
  exact bind_of_error hstatement

theorem not_lasts_opens (limit : Nat) (p : Place) :
    ¬ Lasts limit (6 * limit + 6) (.printing p :: List.replicate limit (.opening p)) := by
  intro h
  obtain ⟨c, hc⟩ := program_of_opens limit (.malformed (.noNumeral "")) p
  obtain ⟨c', hc'⟩ := program_of_opens limit (.refused .nestedTooDeeply p) p
  have heq := h (failing (.malformed (.noNumeral ""))) (failing (.refused .nestedTooDeeply p))
  rw [hc, hc'] at heq
  cases heq

end Opens

/-- **The limit on nesting bounds the depth of the calls.** The rules that call each other by their
names are the rules of the grammar. For every list of tokens a budget of six calls for each level
and seven more lasts, so no more than these are ever active at a time, and with it the outcome is
the one without a budget. Six calls for each level and six more do not last for every list. -/
theorem lasts_program (limit : Nat) :
    (ofLimit limit).calling limit = ofLimit limit ∧
    (∀ ts, Lasts limit (6 * limit + 7) ts ∧
      ∀ spent, (within spent limit (6 * limit + 7)).program (.ofTokens ts) =
          (ofLimit limit).program (.ofTokens ts) ∧
        outcome ((within spent limit (6 * limit + 7)).program (.ofTokens ts)) =
          Program.ofTokensWithin limit ts) ∧
    ∃ ts, ¬ Lasts limit (6 * limit + 6) ts := by
  refine ⟨calling_ofLimit limit, fun ts => ⟨fun spent spent' => ?_, fun spent => ?_⟩,
    _, not_lasts_opens limit .start⟩
  · rw [program_within_eq, program_within_eq]
  · rw [program_within_eq, Program.ofTokensWithin_eq]
    exact ⟨rfl, rfl⟩

end Rules

end AelSyntax
