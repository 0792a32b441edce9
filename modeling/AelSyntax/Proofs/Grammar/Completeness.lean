import AelSyntax.Proofs.Grammar.Run
import Mathlib.Tactic.Common

/-! # Every derivation is read

A rule accepts the phrases of a sort if it reads each of them that its room for nestings allows, as
long as what follows does not continue the phrase (`Rule.Accepts`). Each rule accepts its sort of
phrases if the rules it is made of do; the circle is closed by recursion on the room. So the program
of every derivation within the limit is read from its tokens (`Derivation.accepted`). -/

namespace AelSyntax

namespace Rule

/-- At a depth of nesting, a rule reads every phrase of a sort that its room allows. -/
def Accepts (r : Rule Expr) (depth : Nat) (s : Symbol) (room : Nat) : Prop :=
  ∀ (p : Phrase s) {rest : List Token} {c : Cursor}, Within room p.nestings → c.depth = depth →
    c.rest = p.yield ++ rest → headKind rest ∉ p.extenders →
      ∃ c', r c = .ok p.tree c' ∧ c.Passes p.yield c'

variable {depth room : Nat}

/-! ### Chains -/

theorem accepts_chainWithin {t : Tier} {operand : Rule Expr}
    (hoperand : operand.Accepts depth t.operand room) :
    ∀ (m : Links t) (left : Expr) {rest : List Token} {n : Nat} {c : Cursor},
      Within room m.nestings → c.depth = depth → c.rest = m.yield ++ rest →
        headKind rest ∉ (Symbol.chain t).extenders → m.yield.length ≤ n →
          ∃ c', chainWithin t.kinds operand n left c = .ok (m.onto left) c' ∧ c.Passes m.yield c'
  | .done, left, rest, n, c, _, _, hc, hr, _ => by
    have hk : c.current.kind ∉ t.kinds := by
      rw [c.kind_current, hc]
      rw [Symbol.extenders_chain, List.mem_append, not_or] at hr
      exact hr.2
    exact ⟨c, chainWithin_of_not_mem hk, .refl c⟩
  | .link op hop p e more, left, rest, n, c, hn, hd, hc, hr, hlen => by
    rw [Links.yield, List.cons_append, List.append_assoc] at hc
    rw [Links.nestings, within_append] at hn
    rw [Links.yield, List.length_cons, List.length_append] at hlen
    obtain ⟨n, rfl⟩ : ∃ n', n = n' + 1 := ⟨n - 1, by omega⟩
    obtain ⟨c₁, h₁, hp₁⟩ := hoperand e hn.1 (c := c.advanced) hd (Cursor.rest_advanced hc)
      (e.not_mem_extenders (more.headKind_not_mem (Tier.not_mem_operand hr)))
    have hc₁ := hp₁.rest_eq (Cursor.rest_advanced hc)
    obtain ⟨c₂, h₂, hp₂⟩ := accepts_chainWithin hoperand more
      (.binary op left e.tree left.place) (n := n) hn.2 (hp₁.depth.trans hd) hc₁ hr (by omega)
    refine ⟨c₂, ?_, ((Cursor.passes_advanced hc).trans hp₁).trans hp₂⟩
    rw [chainWithin_of_mem (BinaryOp.kind_mem_kinds hop) hc, bind_of_ok h₁, h₂, Links.onto]

theorem accepts_chain {t : Tier} {operand : Rule Expr}
    (hoperand : operand.Accepts depth t.operand room) :
    (chain t.kinds operand).Accepts depth (.chain t) room := by
  intro p rest c hn hd hc hr
  cases p with
  | chain first more =>
    rw [Phrase.yield, List.append_assoc] at hc
    rw [Phrase.nestings, within_append] at hn
    obtain ⟨c₁, h₁, hp₁⟩ := hoperand first hn.1 hd hc
      (first.not_mem_extenders (more.headKind_not_mem (Tier.not_mem_operand hr)))
    have hc₁ := hp₁.rest_eq hc
    have hlen : more.yield.length ≤ c₁.rest.length := by rw [hc₁, List.length_append]; omega
    obtain ⟨c₂, h₂, hp₂⟩ := accepts_chainWithin hoperand more first.tree hn.2
      (hp₁.depth.trans hd) hc₁ hr hlen
    refine ⟨c₂, ?_, hp₁.trans hp₂⟩
    rw [chain, bind_of_ok h₁, remaining_bind, h₂, Phrase.tree]

/-! ### Terms and comparisons -/

theorem accepts_term {product : Rule Expr}
    (hproduct : product.Accepts depth (.chain .product) room) :
    (term product).Accepts depth .term room := by
  intro p rest c hn hd hc hr
  cases p with
  | bare f =>
    have hk : c.current.kind ≠ .minus := by
      rw [c.kind_current, hc]
      exact f.headKind_product_ne_minus rest
    rw [term_of_ne hk]
    exact hproduct f hn hd hc (f.not_mem_extenders hr)
  | negated q f =>
    obtain ⟨c₁, h₁, hp₁⟩ := hproduct f hn (c := c.advanced) hd (Cursor.rest_advanced hc)
      (f.not_mem_extenders hr)
    refine ⟨c₁, ?_, (Cursor.passes_advanced hc).trans hp₁⟩
    rw [term_of_minus hc, bind_of_ok h₁]
    rfl

theorem accepts_comparison {sum : Rule Expr} (hsum : sum.Accepts depth (.chain .sum) room) :
    (comparison sum).Accepts depth .expression room := by
  intro p rest c hn hd hc hr
  cases p with
  | plain s =>
    obtain ⟨c₁, h₁, hp₁⟩ := hsum s hn hd hc (s.not_mem_extenders (Symbol.not_mem_sum hr))
    have hk : c₁.current.kind ≠ .equals := by
      rw [c₁.kind_current, hp₁.rest_eq hc]
      intro h
      rw [h] at hr
      exact hr Symbol.equals_mem_expression
    exact ⟨c₁, comparison_of_ne h₁ hk, hp₁⟩
  | compared l q r =>
    rw [Phrase.yield, List.append_assoc, List.cons_append] at hc
    rw [Phrase.nestings, within_append] at hn
    obtain ⟨c₁, h₁, hp₁⟩ := hsum l hn.1 hd hc (l.not_mem_extenders Symbol.equals_not_mem_sum)
    have hc₁ := hp₁.rest_eq hc
    obtain ⟨c₂, h₂, hp₂⟩ := hsum r hn.2 (c := c₁.advanced) (hp₁.depth.trans hd)
      (Cursor.rest_advanced hc₁) (r.not_mem_extenders hr)
    refine ⟨c₂, ?_, hp₁.trans ((Cursor.passes_advanced hc₁).trans hp₂)⟩
    rw [comparison_of_equals h₁ hc₁, bind_of_ok h₂]
    rfl

/-! ### Powers -/

theorem accepts_primary {inside operand : Rule Expr}
    (hinside : inside.Accepts depth .expression room) :
    (primary inside operand).Accepts depth .base (room + 1) := by
  intro p rest c hn hd hc _
  cases p with
  | name id => exact ⟨c.advanced, primary_of_name hc, Cursor.passes_advanced hc⟩
  | number n q => exact ⟨c.advanced, primary_of_number hc, Cursor.passes_advanced hc⟩
  | group q e q' =>
    rw [Phrase.yield, List.cons_append, List.append_assoc, List.singleton_append] at hc
    obtain ⟨c₁, h₁, hp₁⟩ := hinside e (within_map_succ.mp hn) (c := c.advanced) hd
      (Cursor.rest_advanced hc) (e.not_mem_extenders Symbol.closeParen_not_mem_expression)
    have hc₁ := hp₁.rest_eq (Cursor.rest_advanced hc)
    refine ⟨c₁.advanced, ?_,
      ((Cursor.passes_advanced hc).trans hp₁).trans (Cursor.passes_advanced hc₁)⟩
    rw [primary_of_opening hc, bind_of_ok h₁, bind_of_ok (take_of_rest .closeParen hc₁ rfl)]
    rfl

theorem accepts_raised {inside inner : Rule Expr} (hinside : inside.Accepts depth .expression room)
    (hinner : inner.Accepts depth .power room) :
    (raised (primary inside inner) inner).Accepts depth .power (room + 1) := by
  intro p rest c hn hd hc hr
  have hne : ∀ {k : Kind}, k ∉ Symbol.power.extenders → k ≠ .power := by
    rintro k hk rfl
    exact hk (List.mem_singleton_self _)
  cases p with
  | alone b =>
    obtain ⟨c₁, h₁, hp₁⟩ := accepts_primary hinside b hn hd hc b.not_mem_extenders_base
    have hk : c₁.current.kind ≠ .power := by
      rw [c₁.kind_current, hp₁.rest_eq hc]
      exact hne hr
    exact ⟨c₁, raised_of_ne h₁ hk, hp₁⟩
  | raised b q e =>
    rw [Phrase.yield, List.append_assoc, List.cons_append] at hc
    rw [Phrase.nestings, within_append, within_map_succ] at hn
    obtain ⟨c₁, h₁, hp₁⟩ := accepts_primary hinside b hn.1 hd hc b.not_mem_extenders_base
    have hc₁ := hp₁.rest_eq hc
    obtain ⟨c₂, h₂, hp₂⟩ := hinner e hn.2 (c := c₁.advanced) (hp₁.depth.trans hd)
      (Cursor.rest_advanced hc₁) (e.not_mem_extenders hr)
    refine ⟨c₂, ?_, hp₁.trans ((Cursor.passes_advanced hc₁).trans hp₂)⟩
    rw [raised_of_power h₁ hc₁, bind_of_ok h₂]
    rfl
  | applied f hf q e =>
    have hc' := Cursor.rest_advanced hc
    obtain ⟨c₁, h₁, hp₁⟩ := hinner e (within_map_succ.mp hn) (c := c.advanced) hd hc'
      (e.not_mem_extenders hr)
    have hk : c₁.current.kind ≠ .power := by
      rw [c₁.kind_current, hp₁.rest_eq hc']
      exact hne hr
    have hprimary : primary inside inner c = .ok (.unary f e.tree q) c₁ := by
      rw [primary_of_function hf hc, bind_of_ok h₁]
      rfl
    exact ⟨c₁, raised_of_ne hprimary hk, (Cursor.passes_advanced hc).trans hp₁⟩

theorem accepts_nested {r : Rule Expr} {s : Symbol} (h : r.Accepts (depth + 1) s room) :
    (nested r).Accepts depth s room := by
  intro p rest c hn hd hc hr
  obtain ⟨c', h', hp⟩ := h p hn (c := { c with depth := c.depth + 1 }) (by rw [hd]) hc hr
  exact ⟨_, nested_of_ok h', hp.of_deeper⟩

/-! ### The circle -/

theorem accepts_expressionOver {power : Rule Expr} (h : power.Accepts depth .power room) :
    (expressionOver power).Accepts depth .expression room :=
  accepts_comparison (accepts_chain (t := .sum)
    (accepts_term (accepts_chain (t := .product) h)))

theorem accepts_powerWithin : ∀ (room depth : Nat), (powerWithin room).Accepts depth .power room
  | 0, _ => fun p _ _ hn => absurd hn p.not_within_zero
  | room + 1, depth => by
    have hinner := accepts_powerWithin room (depth + 1)
    exact accepts_nested (accepts_raised (accepts_expressionOver hinner) hinner)

theorem accepts_power (limit depth : Nat) : (power limit).Accepts depth .power (limit - depth) := by
  intro p rest c hn hd hc hr
  rw [power, hd]
  exact accepts_powerWithin _ _ p hn hd hc hr

theorem accepts_expression (limit : Nat) : (expression limit).Accepts 0 .expression limit :=
  accepts_expressionOver (accepts_power limit 0)

/-! ### Statements -/

theorem assigned_accepts {expr : Rule Expr} (hexpr : expr.Accepts depth .expression room)
    (f : Expr → Statement) (q : Place) (e : Phrase .expression) {rest : List Token} {c : Cursor}
    (hn : Within room e.nestings) (hd : c.depth = depth)
    (hc : c.rest = .assigning q :: (e.yield ++ rest)) (hr : headKind rest ∉ e.extenders) :
    ∃ c', assigned expr f c = .ok (f e.tree) c' ∧ c.Passes (.assigning q :: e.yield) c' := by
  obtain ⟨c', h', hp⟩ := hexpr e hn (c := c.advanced) hd (Cursor.rest_advanced hc) hr
  refine ⟨c', ?_, (Cursor.passes_advanced hc).trans hp⟩
  rw [assigned, bind_of_ok (take_of_rest .assign hc rfl), bind_of_ok h']
  rfl

theorem statement_accepts {expr : Rule Expr} (hexpr : expr.Accepts depth .expression room)
    (s : Clause) {rest : List Token} {c : Cursor} (hn : Within room s.nestings)
    (hd : c.depth = depth) (hc : c.rest = s.yield ++ rest) (hr : headKind rest ∉ s.extenders) :
    ∃ c', statement expr c = .ok s.tree c' ∧ c.Passes s.yield c' := by
  cases s with
  | declaration p name q e =>
    have hc₁ := Cursor.rest_advanced hc
    obtain ⟨c', h', hp⟩ := assigned_accepts hexpr (fun e => .declaration name.name e p) q e hn
      (c := c.advanced.advanced) hd (Cursor.rest_advanced hc₁) hr
    refine ⟨c', ?_, (Cursor.passes_advanced hc).trans ((Cursor.passes_advanced hc₁).trans hp)⟩
    rw [statement_of_declaring hc, bind_of_ok (take_of_rest .identifier hc₁ rfl)]
    exact h'
  | assignment target q e =>
    obtain ⟨c', h', hp⟩ := assigned_accepts hexpr (fun e => .assignment target e target.place) q e
      hn (c := c.advanced) hd (Cursor.rest_advanced hc) hr
    refine ⟨c', ?_, (Cursor.passes_advanced hc).trans hp⟩
    rw [statement_of_name hc]
    exact h'
  | print p e =>
    obtain ⟨c', h', hp⟩ := hexpr e hn (c := c.advanced) hd (Cursor.rest_advanced hc) hr
    refine ⟨c', ?_, (Cursor.passes_advanced hc).trans hp⟩
    rw [statement_of_printing hc, bind_of_ok h']
    rfl

/-- Statements are read up to the end of the text, as long as the number allows. -/
theorem statementsWithin_accepts {expr : Rule Expr}
    (hexpr : expr.Accepts depth .expression room) :
    ∀ (ss : List Clause) {rest : List Token} {n : Nat} {c : Cursor},
      Within room (ss.flatMap Clause.nestings) → c.depth = depth →
        c.rest = ss.flatMap Clause.yield ++ rest → headKind rest = .finish →
          (ss.flatMap Clause.yield).length ≤ n →
            ∃ c', statementsWithin (statement expr) n c = .ok (ss.map Clause.tree) c'
  | [], rest, n, c, _, _, hc, hr, _ => by
    have hk : c.current.kind = .finish := by rw [c.kind_current, hc]; exact hr
    exact ⟨c, statementsWithin_of_finish hk⟩
  | s :: ss, rest, n, c, hn, hd, hc, hr, hlen => by
    rw [List.flatMap_cons, List.append_assoc] at hc
    rw [List.flatMap_cons, within_append] at hn
    rw [List.flatMap_cons, List.length_append] at hlen
    have hpos : 0 < s.yield.length := List.length_pos_iff.mpr s.yield_ne_nil
    obtain ⟨n, rfl⟩ : ∃ n', n = n' + 1 := ⟨n - 1, by omega⟩
    have hk : c.current.kind ≠ .finish := by
      rw [c.kind_current, hc]
      exact s.headKind_ne_finish _
    obtain ⟨c₁, h₁, hp₁⟩ := statement_accepts hexpr s hn.1 hd hc
      (s.not_mem_extenders (headKind_clauses_not_mem ss hr))
    obtain ⟨c₂, h₂⟩ := statementsWithin_accepts hexpr ss (n := n) hn.2 (hp₁.depth.trans hd)
      (hp₁.rest_eq hc) hr (by omega)
    refine ⟨c₂, ?_⟩
    rw [statementsWithin_of_ne hk, bind_of_ok h₁, bind_of_ok h₂]
    rfl

theorem program_accepts {expr : Rule Expr} (hexpr : expr.Accepts depth .expression room)
    (d : Derivation) {rest : List Token} {c : Cursor} (hn : Within room d.nestings)
    (hd : c.depth = depth) (hc : c.rest = d.yield ++ rest) (hr : headKind rest = .finish) :
    ∃ c', program (statement expr) c = .ok d.tree c' := by
  rw [Derivation.yield, Derivation.clauses, List.flatMap_cons, List.append_assoc] at hc
  rw [Derivation.nestings, Derivation.clauses, List.flatMap_cons, within_append] at hn
  obtain ⟨c₁, h₁, hp₁⟩ := statement_accepts hexpr d.first hn.1 hd hc
    (d.first.not_mem_extenders (headKind_clauses_not_mem d.more hr))
  have hc₁ := hp₁.rest_eq hc
  have hlen : (d.more.flatMap Clause.yield).length ≤ c₁.rest.length := by
    rw [hc₁, List.length_append]; omega
  obtain ⟨c₂, h₂⟩ := statementsWithin_accepts hexpr d.more hn.2 (hp₁.depth.trans hd) hc₁ hr hlen
  refine ⟨c₂, ?_⟩
  have hplace : c.current.place = d.first.tree.place := by
    rw [Cursor.current, hc]
    cases d.first <;> rfl
  rw [program_eq, bind_of_ok h₁, remaining_bind, bind_of_ok h₂, hplace]
  rfl

end Rule

/-- **Every derivation within the limit is read**, and its program is the result. -/
theorem Derivation.accepted (d : Derivation) {limit : Nat} (hn : Within limit d.nestings)
    {rest : List Token} (hr : headKind rest = .finish) :
    Program.ofTokensWithin limit (d.yield ++ rest) = .ok d.tree := by
  obtain ⟨c', h⟩ := Rule.program_accepts (Rule.accepts_expression limit) d
    (c := .ofTokens (d.yield ++ rest)) hn rfl rfl hr
  rw [Program.ofTokensWithin, h]

end AelSyntax
