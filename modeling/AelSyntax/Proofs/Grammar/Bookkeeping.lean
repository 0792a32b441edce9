import AelSyntax.Proofs.Grammar.Lookahead
import AelSyntax.Proofs.Grammar.Unrolling
import Mathlib.Tactic.Common

/-! # What a rule leaves behind

A rule may be run at any token of a list, at any depth. Whether it succeeds or not, the list and the
depth are then what they were, and the cursor is nowhere behind the next end of the text
(`Rule.Tidy`). Where a rule succeeds, at least one token is passed (`Rule.Consumes`); where it
refuses a token, it is at that token.

* `Rule.tidy_rules`: so it is with every rule of the grammar, and the loops and levels in them come
  to an end by themselves. -/

namespace AelSyntax

/-! ### Cursors in a list -/

namespace Cursor

variable {ts us : List Token} {i depth : Nat} {c : Cursor}

/-- The cursor in front of the token with an index, at a depth. -/
def before (ts : List Token) (i depth : Nat) : Cursor :=
  { ofTokens ts with rest := ts.drop i, position := i, depth := depth }

/-- The index of the next end of the text from an index on, or where the list ends. -/
def finishFrom (ts : List Token) (i : Nat) : Nat :=
  i + (ts.drop i).findIdx fun t => t.kind = .finish

theorem finishFrom_le_length (h : i ≤ ts.length) : finishFrom ts i ≤ ts.length := by
  have hle : (ts.drop i).findIdx (fun t => t.kind = .finish) ≤ ts.length - i := by
    rw [← List.length_drop]
    exact List.findIdx_le_length
  rw [finishFrom]
  omega

theorem Passes.eq_before (h : (before ts i depth).Passes us c) :
    c = before ts (i + us.length) depth := by
  have hdrop : ts.drop i = us ++ c.rest := h.rest
  have hrest : c.rest = ts.drop (i + us.length) := by
    rw [← List.drop_drop, hdrop, List.drop_left]
  obtain ⟨rest, lastPlace, position, d⟩ := c
  rw [before, Cursor.mk.injEq]
  exact ⟨hrest, h.lastPlace, h.position, h.depth⟩

/-- Behind tokens of lexemes a cursor is not behind the end of the text. -/
theorem Crosses.exists_before (h : (before ts i depth).Crosses c) :
    ∃ j, c = before ts j depth ∧ i ≤ j ∧ j ≤ finishFrom ts i := by
  obtain ⟨us, hp, hus⟩ := h
  refine ⟨i + us.length, hp.eq_before, Nat.le_add_right _ _, Nat.add_le_add_left ?_ i⟩
  have hdrop : ts.drop i = us ++ c.rest := hp.rest
  -- no end of the text is among the tokens that were passed, so the next one is behind them
  have hnone : us.findIdx (fun t => t.kind = .finish) = us.length :=
    List.findIdx_eq_length.mpr fun t ht => decide_eq_false (hus t ht).2
  rw [hdrop, List.findIdx_append, hnone, if_neg (Nat.lt_irrefl _)]
  exact Nat.le_add_left _ _

end Cursor

namespace Rule

/-! ### Progress -/

/-- Where a rule succeeds, at least one token is passed. -/
def Consumes {α : Type} (r : Rule α) : Prop :=
  ∀ ⦃c c' : Cursor⦄ ⦃a : α⦄, r c = .ok a c' → c'.rest.length < c.rest.length

section Progress

variable {α β : Type} {r : Rule α} {g : α → Rule β}

theorem Consumes.bind (hr : r.Consumes) (hg : ∀ a, (g a).Shrinks) : (r >>= g).Consumes := by
  intro c c' b hrun
  obtain ⟨a, c₁, h₁, h₂⟩ := bind_eq_ok.mp hrun
  exact Nat.lt_of_le_of_lt ((hg a).le_of_ok h₂) (hr h₁)

theorem Consumes.nested (h : r.Consumes) : (nested r).Consumes := by
  intro c c' a hrun
  cases hinner : r { c with depth := c.depth + 1 } with
  | ok b c₁ =>
    have hlt := h (c := { c with depth := c.depth + 1 }) hinner
    rw [nested_of_ok hinner] at hrun
    cases hrun
    exact hlt
  | error e c₁ =>
    rw [nested_of_error hinner] at hrun
    cases hrun

variable {operand : Rule Expr}

theorem shrinks_binary (h : operand.Shrinks) (left : Expr) (p : Place) :
    (advance >>= fun op => operand >>= fun right =>
      build (Expr.ofBinary op.text left right p)).Shrinks :=
  shrinks_advance.bind fun _ => h.bind fun _ => shrinks_build _

theorem consumes_primary {inside : Rule Expr} (hinside : inside.Shrinks) (h : operand.Shrinks) :
    (primary inside operand).Consumes := by
  intro c c' a hrun
  rw [primary, current_bind] at hrun
  -- every kind that begins a primary is passed first, and what follows takes no token back
  have hpast {g : Token → Rule Expr} (hg : ∀ t, (g t).Shrinks) (hk : c.current.kind ≠ .finish)
      (hrun : (advance >>= g) c = .ok a c') : c'.rest.length < c.rest.length :=
    advances_advance_bind hg hrun (rest_ne_nil_of_kind hk)
  cases hk : c.current.kind <;> rw [hk] at hrun hpast
  case identifier => exact hpast (fun _ => shrinks_pure _) (by decide) hrun
  case number => exact hpast (fun _ => shrinks_build _) (by decide) hrun
  case openParen =>
    refine hpast (fun _ => hinside.bind fun _ => ?_) (by decide) hrun
    exact (shrinks_take _ _).bind fun _ => shrinks_pure _
  case absWord => exact hpast (fun _ => h.bind fun _ => shrinks_build _) (by decide) hrun
  case sqrtWord => exact hpast (fun _ => h.bind fun _ => shrinks_build _) (by decide) hrun
  all_goals cases hrun

theorem consumes_raised {base : Rule Expr} (hbase : base.Consumes) (h : operand.Shrinks) :
    (raised base operand).Consumes := by
  refine hbase.bind fun left => shrinks_current.bind fun t => ?_
  split_ifs
  · exact shrinks_binary h left left.place
  · exact shrinks_pure left

theorem consumes_powerWithin (room : Nat) : (powerWithin room).Consumes := by
  cases room with
  | zero =>
    intro c c' a hrun
    rw [powerWithin, tooDeep] at hrun
    split_ifs at hrun
  | succ room =>
    have hinner := orderly_powerWithin room
    have hinside := orderly_expressionOver hinner
    exact (consumes_raised (consumes_primary hinside.shrinks hinner.shrinks) hinner.shrinks).nested

theorem consumes_power (limit : Nat) : (power limit).Consumes :=
  fun c _ _ hrun => consumes_powerWithin (limit - c.depth) hrun

theorem consumes_chain (kinds : List Kind) (h : operand.Consumes) (hs : operand.Shrinks) :
    (chain kinds operand).Consumes :=
  h.bind fun left c => shrinks_chainWithin hs c.rest.length left c

theorem consumes_term (h : operand.Consumes) : (term operand).Consumes := by
  intro c c' a hrun
  by_cases hk : c.current.kind = .minus
  · have hc := Cursor.rest_of_kind_ne_finish (c := c) (by rw [hk]; decide)
    rw [term_of_kind hk] at hrun
    obtain ⟨e, c₁, h₁, h₂⟩ := bind_eq_ok.mp hrun
    have hlt := h h₁
    have hle := (shrinks_build _).le_of_ok h₂
    rw [hc, List.length_cons]
    omega
  · rw [term_of_ne hk] at hrun
    exact h hrun

theorem consumes_comparison (h : operand.Consumes) (hs : operand.Shrinks) :
    (comparison operand).Consumes := by
  refine h.bind fun left => shrinks_current.bind fun t => ?_
  split_ifs
  · exact shrinks_binary hs left left.place
  · exact shrinks_pure left

theorem consumes_statement {expr : Rule Expr} (h : expr.Shrinks) : (statement expr).Consumes := by
  intro c c' s hrun
  refine advances_statement h hrun (rest_ne_nil_of_kind fun hk => ?_)
  rw [statement, current_bind, hk] at hrun
  cases hrun

theorem consumes_program {stmt : Rule Statement} (h : stmt.Consumes) (hs : stmt.Shrinks) :
    (program stmt).Consumes := by
  intro c c' p hrun
  rw [program_eq] at hrun
  exact h.bind (fun s => shrinks_more hs s c.current.place) hrun

end Progress

/-! ### Tidy rules -/

/-- Wherever a rule begins in a list of tokens, it ends in the same list at the same depth, not
behind the next end of the text. Where it succeeds, it has passed at least one token. Where it
fails, it has not gone back, and if a token is refused, it is at that token. -/
def Tidy {α : Type} (r : Rule α) : Prop :=
  ∀ (ts : List Token) (i depth : Nat), match r (.before ts i depth) with
    | .ok _ c => ∃ j, c = .before ts j depth ∧ i < j ∧ j ≤ Cursor.finishFrom ts i
    | .error e c => (∃ j, c = .before ts j depth ∧ i ≤ j ∧ j ≤ Cursor.finishFrom ts i) ∧
        ∀ reason p, e = .refused reason p → p = c.current.place ∧ c.current.RefusedFor reason

/-- A refused token stands in the list, at an index up to the next end of the text. -/
theorem Orderly.exists_refused {α : Type} {r : Rule α} (h : r.Orderly) {ts : List Token}
    {i depth : Nat} {reason : Refusal} {p : Place} {c : Cursor}
    (hrun : r (.before ts i depth) = .error (.refused reason p) c) :
    ∃ j, c = .before ts j depth ∧ i ≤ j ∧ j ≤ Cursor.finishFrom ts i ∧
      p = c.current.place ∧ c.current.RefusedFor reason := by
  have hends := h (.before ts i depth)
  rw [hrun] at hends
  obtain ⟨hcross, ⟨reason', hreason, heq⟩ | ⟨⟨m, heq⟩, -⟩⟩ := hends
  · cases heq
    obtain ⟨j, hc, hij, hj⟩ := hcross.exists_before
    exact ⟨j, hc, hij, hj, rfl, hreason⟩
  · cases heq

theorem Orderly.tidy {α : Type} {r : Rule α} (h : r.Orderly) (hc : r.Consumes) : r.Tidy := by
  intro ts i depth
  have hcross := h.crosses (.before ts i depth)
  cases hrun : r (.before ts i depth) with
  | ok a c =>
    rw [hrun] at hcross
    obtain ⟨j, rfl, -, hj⟩ := hcross.exists_before
    have hlt : (ts.drop j).length < (ts.drop i).length := hc hrun
    rw [List.length_drop, List.length_drop] at hlt
    exact ⟨j, rfl, by omega, hj⟩
  | error e c =>
    rw [hrun] at hcross
    refine ⟨hcross.exists_before, fun reason p he => ?_⟩
    rw [he] at hrun
    obtain ⟨j, -, -, -, hplace, hreason⟩ := h.exists_refused hrun
    exact ⟨hplace, hreason⟩

/-- **Every rule is tidy** on any list of tokens, under any limit, from any token on and at any
depth. Nor is it a bound that ends a rule: the levels of a power are counted against the limit, and
the loops of sums, products and programs go on as long as the next token asks for it. -/
theorem tidy_rules (limit : Nat) :
    ((program (statement (expression limit))).Tidy ∧
      (statement (expression limit)).Tidy ∧
      (expression limit).Tidy ∧
      (sum (term (product (power limit)))).Tidy ∧
      (term (product (power limit))).Tidy ∧
      (product (power limit)).Tidy ∧
      (power limit).Tidy ∧
      (primary (expression limit) (power limit)).Tidy) ∧
    (∀ c : Cursor, power limit c =
      if c.depth < limit then
        nested (raised (primary (expression limit) (power limit)) (power limit)) c
      else tooDeep c) ∧
    (product (power limit)).LoopsAfter (power limit) (· ∈ [.times, .divide, .modulo])
      (link (power limit)) ∧
    (sum (term (product (power limit)))).LoopsAfter (term (product (power limit)))
      (· ∈ [.plus, .minus]) (link (term (product (power limit)))) ∧
    (program (statement (expression limit))).LoopsAfter (opening (statement (expression limit)))
      (· ≠ .finish) (extended (statement (expression limit))) := by
  have hpower := orderly_power limit
  have hproduct : (product (power limit)).Orderly := orderly_chain (t := .product) hpower
  have hterm := orderly_term hproduct
  have hsum : (sum (term (product (power limit)))).Orderly := orderly_chain (t := .sum) hterm
  have hexpr := orderly_expression limit
  have hstmt := orderly_statement hexpr
  have cpower := consumes_power limit
  have cproduct : (product (power limit)).Consumes := consumes_chain _ cpower hpower.shrinks
  have cterm := consumes_term cproduct
  have csum : (sum (term (product (power limit)))).Consumes :=
    consumes_chain _ cterm hterm.shrinks
  have cexpr : (expression limit).Consumes := consumes_comparison csum hsum.shrinks
  have cstmt := consumes_statement hexpr.shrinks
  refine ⟨⟨?_, hstmt.tidy cstmt, hexpr.tidy cexpr, hsum.tidy csum, hterm.tidy cterm,
    hproduct.tidy cproduct, hpower.tidy cpower, ?_⟩, power_eq limit, ?_, ?_, ?_⟩
  · exact (orderly_program limit).tidy (consumes_program cstmt hstmt.shrinks)
  · exact (orderly_primary hexpr hpower).tidy (consumes_primary hexpr.shrinks hpower.shrinks)
  · exact loopsAfter_chain (by decide) hpower.shrinks
  · exact loopsAfter_chain (by decide) hterm.shrinks
  · exact loopsAfter_program (advances_statement hexpr.shrinks)

end Rule

end AelSyntax
