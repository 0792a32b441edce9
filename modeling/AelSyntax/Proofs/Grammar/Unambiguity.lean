import AelSyntax.Proofs.Grammar.Phrase
import Mathlib.Tactic.Common

/-! # The grammar is unambiguous

Two phrases of one sort that are read from the front of the same tokens are the same, as long as
what follows either of them does not continue it (`Phrase.unique`). The choices that the grammar
offers are told apart by one token: a sum is compared or not by the sign behind it, a term is
negated or not by its first token, and so on. Statements begin with a word or a name, which continue
no expression, so no separator is needed between them (`Derivation.unique`). -/

namespace AelSyntax

mutual

/-- **A phrase is determined by its tokens**, and so is where it ends, if what follows does not
continue it. -/
theorem Phrase.unique : ∀ {s : Symbol} (p q : Phrase s) {rest rest' : List Token},
    p.yield ++ rest = q.yield ++ rest' → headKind rest ∉ s.extenders →
      headKind rest' ∉ s.extenders → p = q ∧ rest = rest'
  | _, .plain s, .plain s', rest, rest', heq, hr, hr' => by
    obtain ⟨rfl, rfl⟩ := Phrase.unique s s' heq (Symbol.not_mem_sum hr) (Symbol.not_mem_sum hr')
    exact ⟨rfl, rfl⟩
  | _, .plain s, .compared l p r, rest, rest', heq, hr, _ => by
    rw [Phrase.yield, Phrase.yield, List.append_assoc] at heq
    obtain ⟨-, rfl⟩ := Phrase.unique s l heq (Symbol.not_mem_sum hr) Symbol.equals_not_mem_sum
    exact absurd Symbol.equals_mem_expression hr
  | _, .compared l p r, .plain s, rest, rest', heq, _, hr' => by
    rw [Phrase.yield, Phrase.yield, List.append_assoc] at heq
    obtain ⟨-, rfl⟩ := Phrase.unique l s heq Symbol.equals_not_mem_sum (Symbol.not_mem_sum hr')
    exact absurd Symbol.equals_mem_expression hr'
  | _, .compared l p r, .compared l' p' r', rest, rest', heq, hr, hr' => by
    rw [Phrase.yield, Phrase.yield, List.append_assoc, List.append_assoc] at heq
    obtain ⟨rfl, hright⟩ := Phrase.unique l l' heq Symbol.equals_not_mem_sum
      Symbol.equals_not_mem_sum
    rw [List.cons_append, List.cons_append, List.cons.injEq] at hright
    obtain ⟨-, rfl⟩ := BinaryOp.token_inj hright.1
    obtain ⟨rfl, rfl⟩ := Phrase.unique r r' hright.2 (Symbol.not_mem_sum hr)
      (Symbol.not_mem_sum hr')
    exact ⟨rfl, rfl⟩
  | _, .chain first more, .chain first' more', rest, rest', heq, hr, hr' => by
    rw [Phrase.yield, Phrase.yield, List.append_assoc, List.append_assoc] at heq
    obtain ⟨rfl, hmore⟩ := Phrase.unique first first' heq
      (more.headKind_not_mem (Tier.not_mem_operand hr))
      (more'.headKind_not_mem (Tier.not_mem_operand hr'))
    obtain ⟨rfl, rfl⟩ := Links.unique more more' hmore hr hr'
    exact ⟨rfl, rfl⟩
  | _, .bare f, .bare f', rest, rest', heq, hr, hr' => by
    obtain ⟨rfl, rfl⟩ := Phrase.unique f f' heq hr hr'
    exact ⟨rfl, rfl⟩
  | _, .bare f, .negated p f', rest, rest', heq, _, _ => by
    exact absurd (congrArg headKind heq) (f.headKind_product_ne_minus rest)
  | _, .negated p f, .bare f', rest, rest', heq, _, _ => by
    exact absurd (congrArg headKind heq).symm (f'.headKind_product_ne_minus rest')
  | _, .negated p f, .negated p' f', rest, rest', heq, hr, hr' => by
    rw [Phrase.yield, Phrase.yield, List.cons_append, List.cons_append, List.cons.injEq] at heq
    obtain ⟨-, rfl⟩ := UnaryOp.token_inj heq.1
    obtain ⟨rfl, rfl⟩ := Phrase.unique f f' heq.2 hr hr'
    exact ⟨rfl, rfl⟩
  | _, .alone b, .alone b', rest, rest', heq, _, _ => by
    obtain ⟨rfl, rfl⟩ := Phrase.unique b b' heq (by simp [Symbol.extenders])
      (by simp [Symbol.extenders])
    exact ⟨rfl, rfl⟩
  | _, .alone b, .raised b' p e, rest, rest', heq, hr, _ => by
    rw [Phrase.yield, Phrase.yield, List.append_assoc] at heq
    obtain ⟨-, rfl⟩ := Phrase.unique b b' heq (by simp [Symbol.extenders])
      (by simp [Symbol.extenders])
    exact absurd (List.mem_singleton_self _) hr
  | _, .raised b p e, .alone b', rest, rest', heq, _, hr' => by
    rw [Phrase.yield, Phrase.yield, List.append_assoc] at heq
    obtain ⟨-, rfl⟩ := Phrase.unique b b' heq (by simp [Symbol.extenders])
      (by simp [Symbol.extenders])
    exact absurd (List.mem_singleton_self _) hr'
  | _, .raised b p e, .raised b' p' e', rest, rest', heq, hr, hr' => by
    rw [Phrase.yield, Phrase.yield, List.append_assoc, List.append_assoc] at heq
    obtain ⟨rfl, hright⟩ := Phrase.unique b b' heq (by simp [Symbol.extenders])
      (by simp [Symbol.extenders])
    rw [List.cons_append, List.cons_append, List.cons.injEq] at hright
    obtain ⟨-, rfl⟩ := BinaryOp.token_inj hright.1
    obtain ⟨rfl, rfl⟩ := Phrase.unique e e' hright.2 hr hr'
    exact ⟨rfl, rfl⟩
  | _, .alone b, .applied f hf p e, rest, rest', heq, _, _ => by
    exact absurd (congrArg headKind heq) (b.headKind_base_ne_function rest hf)
  | _, .applied f hf p e, .alone b, rest, rest', heq, _, _ => by
    exact absurd (congrArg headKind heq).symm (b.headKind_base_ne_function rest' hf)
  | _, .raised b q e', .applied f hf p e, rest, rest', heq, _, _ => by
    rw [Phrase.yield, Phrase.yield, List.append_assoc] at heq
    exact absurd (congrArg headKind heq) (b.headKind_base_ne_function _ hf)
  | _, .applied f hf p e, .raised b q e', rest, rest', heq, _, _ => by
    rw [Phrase.yield, Phrase.yield, List.append_assoc] at heq
    exact absurd (congrArg headKind heq).symm (b.headKind_base_ne_function _ hf)
  | _, .applied f hf p e, .applied f' hf' p' e', rest, rest', heq, hr, hr' => by
    rw [Phrase.yield, Phrase.yield, List.cons_append, List.cons_append, List.cons.injEq] at heq
    obtain ⟨rfl, rfl⟩ := UnaryOp.token_inj heq.1
    obtain ⟨rfl, rfl⟩ := Phrase.unique e e' heq.2 hr hr'
    exact ⟨rfl, rfl⟩
  | _, .name id, .name id', rest, rest', heq, _, _ => by
    rw [Phrase.yield, Phrase.yield, List.cons_append, List.cons_append, List.cons.injEq] at heq
    obtain rfl := Identifier.token_inj heq.1
    exact ⟨rfl, heq.2⟩
  | _, .number n p, .number n' p', rest, rest', heq, _, _ => by
    rw [Phrase.yield, Phrase.yield, List.cons_append, List.cons_append, List.cons.injEq] at heq
    obtain ⟨rfl, rfl⟩ := Number.token_inj heq.1
    exact ⟨rfl, heq.2⟩
  | _, .group p e q, .group p' e' q', rest, rest', heq, _, _ => by
    rw [Phrase.yield, Phrase.yield, List.cons_append, List.cons_append, List.cons.injEq,
      List.append_assoc, List.append_assoc] at heq
    obtain rfl : p = p' := congrArg Token.place heq.1
    obtain ⟨rfl, hright⟩ := Phrase.unique e e' heq.2 Symbol.closeParen_not_mem_expression
      Symbol.closeParen_not_mem_expression
    rw [List.singleton_append, List.singleton_append, List.cons.injEq] at hright
    obtain rfl : q = q' := congrArg Token.place hright.1
    exact ⟨rfl, hright.2⟩
  | _, .name _, .number _ _, _, _, heq, _, _ => by cases congrArg headKind heq
  | _, .name _, .group _ _ _, _, _, heq, _, _ => by cases congrArg headKind heq
  | _, .number _ _, .name _, _, _, heq, _, _ => by cases congrArg headKind heq
  | _, .number _ _, .group _ _ _, _, _, heq, _, _ => by cases congrArg headKind heq
  | _, .group _ _ _, .name _, _, _, heq, _, _ => by cases congrArg headKind heq
  | _, .group _ _ _, .number _ _, _, _, heq, _, _ => by cases congrArg headKind heq

theorem Links.unique : ∀ {t : Tier} (m n : Links t) {rest rest' : List Token},
    m.yield ++ rest = n.yield ++ rest' → headKind rest ∉ (Symbol.chain t).extenders →
      headKind rest' ∉ (Symbol.chain t).extenders → m = n ∧ rest = rest'
  | _, .done, .done, rest, rest', heq, _, _ => ⟨rfl, heq⟩
  | _, .done, .link op hop p e more, rest, rest', heq, hr, _ => by
    rw [show headKind rest = op.kind from congrArg headKind heq] at hr
    exact absurd (BinaryOp.kind_mem_extenders hop) hr
  | _, .link op hop p e more, .done, rest, rest', heq, _, hr' => by
    rw [show headKind rest' = op.kind from (congrArg headKind heq).symm] at hr'
    exact absurd (BinaryOp.kind_mem_extenders hop) hr'
  | _, .link op hop p e more, .link op' hop' p' e' more', rest, rest', heq, hr, hr' => by
    rw [Links.yield, Links.yield, List.cons_append, List.cons_append, List.cons.injEq,
      List.append_assoc, List.append_assoc] at heq
    obtain ⟨rfl, rfl⟩ := BinaryOp.token_inj heq.1
    obtain ⟨rfl, hmore⟩ := Phrase.unique e e' heq.2
      (more.headKind_not_mem (Tier.not_mem_operand hr))
      (more'.headKind_not_mem (Tier.not_mem_operand hr'))
    obtain ⟨rfl, rfl⟩ := Links.unique more more' hmore hr hr'
    exact ⟨rfl, rfl⟩

end

/-! ### Clauses -/

theorem Clause.unique (c c' : Clause) {rest rest' : List Token}
    (heq : c.yield ++ rest = c'.yield ++ rest')
    (hr : headKind rest ∉ Symbol.expression.extenders)
    (hr' : headKind rest' ∉ Symbol.expression.extenders) : c = c' ∧ rest = rest' := by
  have hkind := congrArg headKind heq
  cases c with
  | declaration p name q e =>
    cases c' with
    | declaration p' name' q' e' =>
      simp only [Clause.yield, List.cons_append, List.cons.injEq] at heq
      obtain ⟨hp, hname, hq, he⟩ := heq
      obtain rfl : p = p' := congrArg Token.place hp
      obtain rfl := Identifier.token_inj hname
      obtain rfl : q = q' := congrArg Token.place hq
      obtain ⟨rfl, rfl⟩ := Phrase.unique e e' he hr hr'
      exact ⟨rfl, rfl⟩
    | assignment _ _ _ => cases hkind
    | print _ _ => cases hkind
  | assignment target q e =>
    cases c' with
    | assignment target' q' e' =>
      simp only [Clause.yield, List.cons_append, List.cons.injEq] at heq
      obtain ⟨htarget, hq, he⟩ := heq
      obtain rfl := Identifier.token_inj htarget
      obtain rfl : q = q' := congrArg Token.place hq
      obtain ⟨rfl, rfl⟩ := Phrase.unique e e' he hr hr'
      exact ⟨rfl, rfl⟩
    | declaration _ _ _ _ => cases hkind
    | print _ _ => cases hkind
  | print p e =>
    cases c' with
    | print p' e' =>
      simp only [Clause.yield, List.cons_append, List.cons.injEq] at heq
      obtain ⟨hp, he⟩ := heq
      obtain rfl : p = p' := congrArg Token.place hp
      obtain ⟨rfl, rfl⟩ := Phrase.unique e e' he hr hr'
      exact ⟨rfl, rfl⟩
    | declaration _ _ _ _ => cases hkind
    | assignment _ _ _ => cases hkind

theorem clauses_unique : ∀ {cs cs' : List Clause},
    cs.flatMap Clause.yield = cs'.flatMap Clause.yield → cs = cs'
  | [], [], _ => rfl
  | [], c :: cs, h => by
    rw [List.flatMap_nil, List.flatMap_cons, eq_comm, List.append_eq_nil_iff] at h
    exact absurd h.1 c.yield_ne_nil
  | c :: cs, [], h => by
    rw [List.flatMap_nil, List.flatMap_cons, List.append_eq_nil_iff] at h
    exact absurd h.1 c.yield_ne_nil
  | c :: cs, c' :: cs', h => by
    rw [List.flatMap_cons, List.flatMap_cons] at h
    have hnext : ∀ cs : List Clause,
        headKind (cs.flatMap Clause.yield) ∉ Symbol.expression.extenders := fun cs => by
      rw [← List.append_nil (cs.flatMap Clause.yield)]
      exact headKind_clauses_not_mem cs rfl
    obtain ⟨rfl, hrest⟩ := c.unique c' h (hnext cs) (hnext cs')
    rw [clauses_unique hrest]

/-- **A derivation is determined by its tokens.** -/
theorem Derivation.unique {d d' : Derivation} (h : d.yield = d'.yield) : d = d' := by
  obtain ⟨first, more⟩ := d
  obtain ⟨first', more'⟩ := d'
  obtain ⟨rfl, rfl⟩ := List.cons.inj (clauses_unique h)
  rfl

end AelSyntax
