import AelSyntax.Proofs.Grammar.Soundness
import Mathlib.Tactic.Common

/-! # Where a run stops

Whatever the tokens are, a rule only goes past tokens of lexemes: it never has the end of the text
behind it, nor a character that belongs to no lexeme (`Cursor.Crosses`). Where a rule fails, the
fault is that of the token it has come to (`Cursor.Blames`); the faults without a place, of nodes
that cannot be built, come from ill-formed tokens alone. Both hold of every way a run may end
(`Cursor.Ends`) if they hold of the rules it is made of, and so of every rule of the grammar
(`Rule.Orderly`).

* `Rule.orderly_program`: the rule for programs is orderly, with any limit. -/

namespace AelSyntax

/-- A token belongs to a lexeme: it is neither a stray character nor the end of the text. -/
def Token.OfLexeme (t : Token) : Prop := t.kind ≠ .unknown ∧ t.kind ≠ .finish

/-- What a token may be refused for: a stray character is unexpected, any other token is not what
the grammar expects, or it stands too deep. -/
inductive Token.RefusedFor (t : Token) : Refusal → Prop
  | stray (h : t.kind = .unknown) : t.RefusedFor (.unexpectedCharacter t.text)
  | misplaced (h : t.kind ≠ .unknown) (what : String) : t.RefusedFor (.expected what t)
  | tooDeep (h : t.kind ≠ .unknown) : t.RefusedFor .nestedTooDeeply

theorem Token.RefusedFor.family_eq {t : Token} {reason : Refusal} (h : t.RefusedFor reason) :
    t.kind = .unknown ∧ reason.family = .lexical ∨
      t.kind ≠ .unknown ∧ reason.family = .grammatical := by
  cases h with
  | stray hk => exact .inl ⟨hk, rfl⟩
  | misplaced hk what => exact .inr ⟨hk, rfl⟩
  | tooDeep hk => exact .inr ⟨hk, rfl⟩

theorem Token.RefusedFor.eq_of_stray {t : Token} {reason : Refusal} (h : t.RefusedFor reason)
    (hk : t.kind = .unknown) : reason = .unexpectedCharacter t.text := by
  cases h with
  | stray => rfl
  | misplaced hne => exact absurd hk hne
  | tooDeep hne => exact absurd hk hne

/-! ### Cursors -/

namespace Cursor

variable {c c₁ c₂ : Cursor}

/-- A cursor stands behind tokens of lexemes that another one has in front of it. -/
def Crosses (c c' : Cursor) : Prop := ∃ ts, c.Passes ts c' ∧ ∀ t ∈ ts, t.OfLexeme

theorem Crosses.refl (c : Cursor) : c.Crosses c := ⟨[], .refl c, by simp⟩

theorem Crosses.trans (h : c.Crosses c₁) (h' : c₁.Crosses c₂) : c.Crosses c₂ := by
  obtain ⟨ts, hp, hts⟩ := h
  obtain ⟨ts', hp', hts'⟩ := h'
  exact ⟨ts ++ ts', hp.trans hp', List.forall_mem_append.mpr ⟨hts, hts'⟩⟩

theorem Crosses.wellFormed (h : c.Crosses c₁) (hc : c.WellFormed) : c₁.WellFormed := by
  obtain ⟨ts, hp, -⟩ := h
  exact hc.of_passes hp

/-- What is crossed one level deeper is crossed. -/
theorem Crosses.of_deeper (h : Crosses { c with depth := c.depth + 1 } c₁) :
    c.Crosses { c₁ with depth := c₁.depth - 1 } := by
  obtain ⟨ts, hp, hts⟩ := h
  exact ⟨ts, hp.of_deeper, hts⟩

/-- The token of a lexeme is crossed. -/
theorem crosses_advanced {k : Kind} (hk : c.current.kind = k)
    (h : k ≠ .unknown ∧ k ≠ .finish) : c.Crosses c.advanced := by
  subst hk
  have hc := rest_of_kind_ne_finish h.2
  exact ⟨[c.current], passes_advanced hc, List.forall_mem_singleton.mpr h⟩

theorem WellFormed.current (h : c.WellFormed) : c.current.WellFormed := by
  rw [Cursor.current]
  cases hc : c.rest with
  | nil =>
    intro hk
    rcases hk with hk | hk <;> cases hk
  | cons t ts => exact h t (by rw [hc]; exact List.mem_cons_self)

/-- A fault is one of the token at a cursor. -/
def Blames (c : Cursor) (e : Fault) : Prop :=
  ∃ reason, c.current.RefusedFor reason ∧ e = .refused reason c.current.place

theorem blames_refusal (c : Cursor) (what : String) : c.Blames (c.current.refusal what) := by
  rw [Token.refusal]
  split_ifs with hk
  · exact ⟨_, .stray hk, rfl⟩
  · exact ⟨_, .misplaced hk what, rfl⟩

/-- How a run that began at a cursor ends: behind tokens of lexemes, and if it fails, with a fault
of the token it has come to, or with one that has no place, on ill-formed tokens. -/
def Ends {α : Type} (c : Cursor) : EStateM.Result Fault Cursor α → Prop
  | .ok _ c' => c.Crosses c'
  | .error e c' => c.Crosses c' ∧ (c'.Blames e ∨ (∃ m, e = .malformed m) ∧ ¬ c.WellFormed)

section Ends

variable {α β : Type} {r : Rule α} {f : α → Rule β}

theorem Crosses.ends (h : c.Crosses c₁) {res : EStateM.Result Fault Cursor α}
    (hres : c₁.Ends res) : c.Ends res := by
  cases res with
  | ok a c' => exact h.trans hres
  | error e c' =>
    obtain ⟨hcross, hfault⟩ := hres
    refine ⟨h.trans hcross, hfault.imp_right fun ⟨hm, hwf⟩ => ⟨hm, fun hc => hwf ?_⟩⟩
    exact h.wellFormed hc

theorem Ends.bind (h : c.Ends (r c₁)) (hf : ∀ a c₂, c.Crosses c₂ → c.Ends (f a c₂)) :
    c.Ends ((r >>= f) c₁) := by
  cases hr : r c₁ with
  | ok a c₂ =>
    rw [hr] at h
    rw [Rule.bind_of_ok hr]
    exact hf a c₂ h
  | error e c₂ =>
    rw [hr] at h
    rw [Rule.bind_of_error hr]
    exact h

/-- A node is refused on ill-formed tokens alone. -/
theorem ends_build {x : Except Malformed α} (h : c.Crosses c₁)
    (hx : c.WellFormed → ∃ a, x = .ok a) : c.Ends (Rule.build x c₁) := by
  cases x with
  | ok a => exact h
  | error m =>
    refine ⟨h, .inr ⟨⟨m, rfl⟩, fun hwf => ?_⟩⟩
    obtain ⟨a, ha⟩ := hx hwf
    cases ha

end Ends

end Cursor

theorem BinaryOp.kind_ofLexeme (o : BinaryOp) : o.kind ≠ .unknown ∧ o.kind ≠ .finish := by
  cases o <;> decide

theorem UnaryOp.kind_ofLexeme (o : UnaryOp) : o.kind ≠ .unknown ∧ o.kind ≠ .finish := by
  cases o <;> decide

/-! ### Rules -/

namespace Rule

variable {α β : Type} {r : Rule α} {f : α → Rule β} {c c₁ : Cursor}

/-- The cursor at the end of a run, with or without success. -/
def endOf : EStateM.Result Fault Cursor α → Cursor
  | .ok _ c => c
  | .error _ c => c

/-- Every run of a rule ends as it should. -/
def Orderly (r : Rule α) : Prop := ∀ c : Cursor, c.Ends (r c)

theorem Orderly.crosses (h : r.Orderly) (c : Cursor) : c.Crosses (endOf (r c)) := by
  have hends := h c
  cases hrun : r c with
  | ok a c₁ =>
    rw [hrun] at hends
    exact hends
  | error e c₁ =>
    rw [hrun] at hends
    exact hends.1

theorem orderly_pure (a : α) : (pure a : Rule α).Orderly := fun c => .refl c

theorem Orderly.bind (hr : r.Orderly) (hf : ∀ a, (f a).Orderly) : (r >>= f).Orderly := fun c =>
  (hr c).bind fun a c₂ hcross => hcross.ends (hf a c₂)

theorem orderly_refuse (what : String) : (refuse what : Rule α).Orderly := fun c =>
  ⟨.refl c, .inl (c.blames_refusal what)⟩

theorem orderly_tooDeep : (tooDeep : Rule α).Orderly := by
  intro c
  rw [tooDeep]
  split_ifs with hk
  · exact ⟨.refl c, .inl (c.blames_refusal "an expression")⟩
  · exact ⟨.refl c, .inl ⟨_, .tooDeep hk, rfl⟩⟩

theorem orderly_take {k : Kind} (h : k ≠ .unknown ∧ k ≠ .finish) (what : String) :
    (take [k] what).Orderly := by
  intro c
  by_cases hk : c.current.kind = k
  · rw [take_of_eq hk]
    exact Cursor.crosses_advanced hk h
  · rw [take_of_ne hk]
    exact ⟨.refl c, .inl (c.blames_refusal what)⟩

theorem orderly_remaining : remaining.Orderly := fun c => .refl c

theorem Orderly.nested (h : r.Orderly) : (nested r).Orderly := by
  intro c
  have hinner := h { c with depth := c.depth + 1 }
  cases hrun : r { c with depth := c.depth + 1 } with
  | ok a c₁ =>
    rw [hrun] at hinner
    rw [nested_of_ok hrun]
    exact Cursor.Crosses.of_deeper hinner
  | error e c₁ =>
    rw [hrun] at hinner
    obtain ⟨hcross, hfault⟩ := hinner
    rw [nested_of_error hrun]
    exact ⟨hcross.of_deeper, hfault⟩

/-! ### Operators -/

/-- Behind an operator stands its second operand, and the node is built. -/
theorem ends_binary {o : BinaryOp} (hk : c.current.kind = o.kind) {operand : Rule Expr}
    (h : operand.Orderly) (left : Expr) (p : Place) :
    c.Ends ((operand >>= fun right => build (Expr.ofBinary c.current.text left right p))
      c.advanced) := by
  have hcross := Cursor.crosses_advanced hk o.kind_ofLexeme
  refine (hcross.ends (h c.advanced)).bind fun right c₂ hc₂ => ?_
  exact Cursor.ends_build hc₂ fun hwf => ⟨_, hwf.current.ofBinary hk left right p⟩

/-- Behind an operator stands its only operand, and the node is built. -/
theorem ends_unary {o : UnaryOp} (hk : c.current.kind = o.kind) {operand : Rule Expr}
    (h : operand.Orderly) (p : Place) :
    c.Ends ((operand >>= fun e => build (Expr.ofUnary c.current.text e p)) c.advanced) := by
  have hcross := Cursor.crosses_advanced hk o.kind_ofLexeme
  refine (hcross.ends (h c.advanced)).bind fun e c₂ hc₂ => ?_
  exact Cursor.ends_build hc₂ fun hwf => ⟨_, hwf.current.ofUnary hk e p⟩

/-! ### Expressions -/

theorem orderly_chainWithin {t : Tier} {operand : Rule Expr} (h : operand.Orderly) (n : Nat) :
    ∀ left : Expr, (chainWithin t.kinds operand n left).Orderly := by
  induction n with
  | zero => exact fun left => orderly_pure left
  | succ n ih =>
    intro left c
    by_cases hk : c.current.kind ∈ t.kinds
    · obtain ⟨o, ho, -⟩ := Tier.exists_op hk
      rw [chainWithin, current_bind, if_pos hk, advance_bind, ← bind_assoc]
      exact (ends_binary ho.symm h left left.place).bind fun joined c₂ hcross =>
        hcross.ends (ih joined c₂)
    · rw [chainWithin_of_not_mem hk]
      exact .refl c

theorem orderly_chain {t : Tier} {operand : Rule Expr} (h : operand.Orderly) :
    (chain t.kinds operand).Orderly :=
  h.bind fun left => orderly_remaining.bind fun n => orderly_chainWithin h n left

theorem orderly_comparison {sum : Rule Expr} (h : sum.Orderly) : (comparison sum).Orderly := by
  refine h.bind fun left c => ?_
  rw [current_bind]
  split_ifs with hk
  · rw [advance_bind]
    exact ends_binary (o := .equals) hk h left left.place
  · exact .refl c

theorem orderly_term {product : Rule Expr} (h : product.Orderly) : (term product).Orderly := by
  intro c
  by_cases hk : c.current.kind = .minus
  · rw [term_of_kind hk]
    exact ends_unary (o := .negate) hk h c.current.place
  · rw [term_of_ne hk]
    exact h c

theorem orderly_raised {base exponent : Rule Expr} (hbase : base.Orderly)
    (hexponent : exponent.Orderly) : (raised base exponent).Orderly := by
  refine hbase.bind fun left c => ?_
  rw [current_bind]
  split_ifs with hk
  · rw [advance_bind]
    exact ends_binary (o := .power) hk hexponent left left.place
  · exact .refl c

theorem orderly_primary {inside operand : Rule Expr} (hinside : inside.Orderly)
    (hoperand : operand.Orderly) : (primary inside operand).Orderly := by
  intro c
  rw [primary, current_bind]
  cases hk : c.current.kind with
  | identifier => exact Cursor.crosses_advanced hk (by decide)
  | number =>
    have hcross := Cursor.crosses_advanced hk (by decide)
    exact Cursor.ends_build hcross fun hwf => hwf.current.ofNumeral hk c.current.place
  | openParen =>
    have hcross := Cursor.crosses_advanced hk (by decide)
    have hgroup := hinside.bind fun e =>
      (orderly_take (k := .closeParen) (by decide) "')'").bind fun _ => orderly_pure e
    exact hcross.ends (hgroup c.advanced)
  | absWord => exact ends_unary (o := .absolute) hk hoperand c.current.place
  | sqrtWord => exact ends_unary (o := .squareRoot) hk hoperand c.current.place
  | _ => exact orderly_refuse _ c

theorem orderly_expressionOver {power : Rule Expr} (h : power.Orderly) :
    (expressionOver power).Orderly :=
  orderly_comparison (orderly_chain (t := .sum) (orderly_term (orderly_chain (t := .product) h)))

theorem orderly_powerWithin (room : Nat) : (powerWithin room).Orderly := by
  induction room with
  | zero => exact orderly_tooDeep
  | succ room ih =>
    exact (orderly_raised (orderly_primary (orderly_expressionOver ih) ih) ih).nested

theorem orderly_power (limit : Nat) : (power limit).Orderly := fun c =>
  orderly_powerWithin (limit - c.depth) c

theorem orderly_expression (limit : Nat) : (expression limit).Orderly :=
  orderly_expressionOver (orderly_power limit)

/-! ### Statements -/

section Statements

variable {expr : Rule Expr}

theorem orderly_assigned (h : expr.Orderly) (g : Expr → Statement) : (assigned expr g).Orderly :=
  (orderly_take (by decide) _).bind fun _ => h.bind fun e => orderly_pure (g e)

theorem orderly_statement (h : expr.Orderly) : (statement expr).Orderly := by
  intro c
  rw [statement, current_bind]
  cases hk : c.current.kind with
  | letWord =>
    have hcross := Cursor.crosses_advanced hk (by decide)
    have hrest := (orderly_take (k := .identifier) (by decide) "identifier").bind fun name =>
      orderly_assigned h fun e => .declaration name.text e c.current.place
    exact hcross.ends (hrest c.advanced)
  | identifier =>
    have hcross := Cursor.crosses_advanced hk (by decide)
    have hrest := orderly_assigned h fun e =>
      .assignment ⟨c.current.text, c.current.place⟩ e c.current.place
    exact hcross.ends (hrest c.advanced)
  | printWord =>
    have hcross := Cursor.crosses_advanced hk (by decide)
    have hrest := h.bind fun e => orderly_pure (Statement.print e c.current.place)
    exact hcross.ends (hrest c.advanced)
  | _ => exact orderly_refuse _ c

theorem orderly_statementsWithin {stmt : Rule Statement} (h : stmt.Orderly) (n : Nat) :
    (statementsWithin stmt n).Orderly := by
  induction n with
  | zero => exact orderly_pure []
  | succ n ih =>
    intro c
    by_cases hk : c.current.kind = .finish
    · rw [statementsWithin_of_finish hk]
      exact .refl c
    · rw [statementsWithin_of_ne hk]
      exact (h.bind fun s => ih.bind fun ss => orderly_pure (s :: ss)) c

/-- **Reading a program is orderly**, whatever the limit is. -/
theorem orderly_program (limit : Nat) : (program (statement (expression limit))).Orderly := by
  intro c
  have hstmt := orderly_statement (orderly_expression limit)
  rw [program_eq]
  refine (hstmt.bind fun s => orderly_remaining.bind fun n => ?_) c
  exact (orderly_statementsWithin hstmt n).bind fun ss => orderly_pure _

end Statements

end Rule

end AelSyntax
