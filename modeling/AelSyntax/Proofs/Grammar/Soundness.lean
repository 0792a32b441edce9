import AelSyntax.Proofs.Grammar.Run
import Mathlib.Tactic.Common

/-! # What is read has a derivation

A rule derives a sort of phrases if whatever it reads from well-formed tokens is such a phrase: the
room allows its nestings, the result is its tree, and what follows does not continue it
(`Rule.Derives`). Each rule derives its sort of phrases if the rules it is made of do, and the
circle is closed by recursion on the room. So a program that is read has a derivation within the
limit (`Derivation.of_accepted`). -/

namespace AelSyntax

/-- Between two cursors stands a phrase with room for its nestings, which nothing continues. -/
structure Cursor.Reads (c : Cursor) (room : Nat) {s : Symbol} (p : Phrase s) (c' : Cursor) :
    Prop where
  within : Within room p.nestings
  passes : c.Passes p.yield c'
  stops : headKind c'.rest ∉ p.extenders

theorem Cursor.Reads.stops_sort {c c' : Cursor} {room : Nat} {s : Symbol} {p : Phrase s}
    (h : c.Reads room p c') (hs : s ≠ .expression) : headKind c'.rest ∉ s.extenders := by
  rw [← p.extenders_eq hs]
  exact h.stops

/-- The operator of a tier with a kind. -/
theorem Tier.exists_op {t : Tier} {k : Kind} (h : k ∈ t.kinds) :
    ∃ o : BinaryOp, o.kind = k ∧ o.tier? = some t := by
  cases t with
  | sum =>
    simp only [Tier.kinds, List.mem_cons, List.not_mem_nil, or_false] at h
    rcases h with rfl | rfl
    · exact ⟨.plus, rfl, rfl⟩
    · exact ⟨.minus, rfl, rfl⟩
  | product =>
    simp only [Tier.kinds, List.mem_cons, List.not_mem_nil, or_false] at h
    rcases h with rfl | rfl | rfl
    · exact ⟨.times, rfl, rfl⟩
    · exact ⟨.divide, rfl, rfl⟩
    · exact ⟨.modulo, rfl, rfl⟩

namespace Rule

/-- At a depth of nesting, a rule reads nothing but phrases of a sort that its room allows. -/
def Derives (r : Rule Expr) (depth : Nat) (s : Symbol) (room : Nat) : Prop :=
  ∀ ⦃c c' : Cursor⦄ ⦃a : Expr⦄, c.WellFormed → c.depth = depth → r c = .ok a c' →
    ∃ p : Phrase s, a = p.tree ∧ c.Reads room p c'

variable {depth room : Nat}

/-! ### Chains -/

theorem derives_chainWithin {t : Tier} {operand : Rule Expr}
    (hoperand : operand.Derives depth t.operand room) :
    ∀ (n : Nat) {left a : Expr} {c c' : Cursor}, c.WellFormed → c.depth = depth →
      headKind c.rest ∉ t.operand.extenders → c.rest.length ≤ n →
        chainWithin t.kinds operand n left c = .ok a c' →
          ∃ m : Links t, a = m.onto left ∧ Within room m.nestings ∧ c.Passes m.yield c' ∧
            headKind c'.rest ∉ (Symbol.chain t).extenders := by
  intro n
  induction n with
  | zero =>
    intro left a c c' _ _ hr hlen h
    obtain ⟨rfl, rfl⟩ := pure_eq_ok.mp h
    have hnil : c.rest = [] := List.length_eq_zero_iff.mp (by omega)
    refine ⟨.done, rfl, by simp [Links.nestings, Within], .refl c, ?_⟩
    rw [hnil]
    cases t <;> decide
  | succ n ih =>
    intro left a c c' hwf hd hr hlen h
    by_cases hk : c.current.kind ∈ t.kinds
    · obtain ⟨o, ho, htier⟩ := Tier.exists_op hk
      have hc := hwf.rest_eq_binary ho.symm
      rw [chainWithin_of_mem (BinaryOp.kind_mem_kinds htier) hc] at h
      obtain ⟨right, c₁, h₁, h₂⟩ := bind_eq_ok.mp h
      obtain ⟨e, rfl, he⟩ := hoperand (hwf.of_rest hc) hd h₁
      have hlen₁ : c₁.rest.length ≤ n := by
        have hlen' := congrArg List.length he.passes.rest
        rw [hc, List.length_cons] at hlen
        rw [List.length_append] at hlen'
        omega
      obtain ⟨m, rfl, hm, hp, hstop⟩ := ih ((hwf.of_rest hc).of_passes he.passes)
        (he.passes.depth.trans hd) (he.stops_sort t.operand_ne_expression) hlen₁ h₂
      refine ⟨.link o htier c.current.place e m, rfl, within_append.mpr ⟨he.within, hm⟩, ?_, hstop⟩
      exact ((Cursor.passes_advanced hc).trans he.passes).trans hp
    · rw [chainWithin_of_not_mem hk] at h
      cases h
      refine ⟨.done, rfl, by simp [Links.nestings, Within], .refl c, ?_⟩
      rw [Symbol.extenders_chain, List.mem_append, not_or, ← c.kind_current]
      rw [← c.kind_current] at hr
      exact ⟨hr, hk⟩

theorem derives_chain {t : Tier} {operand : Rule Expr}
    (hoperand : operand.Derives depth t.operand room) :
    (chain t.kinds operand).Derives depth (.chain t) room := by
  intro c c' a hwf hd h
  obtain ⟨left, c₁, h₁, h₂⟩ := bind_eq_ok.mp h
  obtain ⟨first, rfl, hfirst⟩ := hoperand hwf hd h₁
  rw [remaining_bind] at h₂
  obtain ⟨m, rfl, hm, hp, hstop⟩ := derives_chainWithin hoperand _
    (hwf.of_passes hfirst.passes) (hfirst.passes.depth.trans hd)
    (hfirst.stops_sort t.operand_ne_expression) le_rfl h₂
  exact ⟨.chain first m, rfl, within_append.mpr ⟨hfirst.within, hm⟩, hfirst.passes.trans hp, hstop⟩

/-! ### Terms and comparisons -/

theorem derives_term {product : Rule Expr}
    (hproduct : product.Derives depth (.chain .product) room) :
    (term product).Derives depth .term room := by
  intro c c' a hwf hd h
  by_cases hk : c.current.kind = .minus
  · have hc := hwf.rest_eq_unary (o := .negate) hk
    rw [term_of_minus hc] at h
    obtain ⟨e, c₁, h₁, h₂⟩ := bind_eq_ok.mp h
    obtain ⟨rfl, rfl⟩ := pure_eq_ok.mp h₂
    obtain ⟨f, rfl, hf⟩ := hproduct (hwf.of_rest hc) hd h₁
    exact ⟨.negated c.current.place f, rfl, hf.within,
      (Cursor.passes_advanced hc).trans hf.passes, hf.stops_sort (by decide)⟩
  · rw [term_of_ne hk] at h
    obtain ⟨f, rfl, hf⟩ := hproduct hwf hd h
    exact ⟨.bare f, rfl, hf.within, hf.passes, hf.stops_sort (by decide)⟩

theorem derives_comparison {sum : Rule Expr} (hsum : sum.Derives depth (.chain .sum) room) :
    (comparison sum).Derives depth .expression room := by
  intro c c' a hwf hd h
  obtain ⟨left, c₁, h₁, -⟩ := bind_eq_ok.mp h
  obtain ⟨l, rfl, hl⟩ := hsum hwf hd h₁
  have hwf₁ := hwf.of_passes hl.passes
  by_cases hk : c₁.current.kind = .equals
  · have hc₁ := hwf₁.rest_eq_binary (o := .equals) hk
    rw [comparison_of_equals h₁ hc₁] at h
    obtain ⟨right, c₂, h₂, h₃⟩ := bind_eq_ok.mp h
    obtain ⟨rfl, rfl⟩ := pure_eq_ok.mp h₃
    obtain ⟨r, rfl, hr⟩ := hsum (hwf₁.of_rest hc₁) (hl.passes.depth.trans hd) h₂
    exact ⟨.compared l c₁.current.place r, rfl, within_append.mpr ⟨hl.within, hr.within⟩,
      hl.passes.trans ((Cursor.passes_advanced hc₁).trans hr.passes), hr.stops_sort (by decide)⟩
  · rw [comparison_of_ne h₁ hk] at h
    rw [c₁.kind_current] at hk
    cases h
    exact ⟨.plain l, rfl, hl.within, hl.passes,
      Symbol.not_mem_expression (hl.stops_sort (by decide)) hk⟩

/-! ### Powers -/

/-- A primary is a base, or a function with its operand. -/
theorem derives_primary {inside operand : Rule Expr}
    (hinside : inside.Derives depth .expression room)
    (hoperand : operand.Derives depth .power room) {c c' : Cursor} {a : Expr} (hwf : c.WellFormed)
    (hd : c.depth = depth) (h : primary inside operand c = .ok a c') :
    (∃ b : Phrase .base, a = b.tree ∧ c.Reads (room + 1) b c') ∨
      ∃ (f : UnaryOp) (hf : f ≠ .negate) (p : Place) (e : Phrase .power),
        a = (Phrase.applied f hf p e).tree ∧ c.Reads (room + 1) (Phrase.applied f hf p e) c' := by
  have hone : Within (room + 1) [1] := fun n hn => by
    rw [List.mem_singleton] at hn
    omega
  rcases hwf.front_of_power with ⟨id, hc⟩ | ⟨m, hc⟩ | hc | ⟨f, hf, hc⟩ | hk
  · rw [primary_of_name hc] at h
    cases h
    exact .inl ⟨.name id, rfl, hone, Cursor.passes_advanced hc,
      Phrase.not_mem_extenders_base _⟩
  · rw [primary_of_number hc] at h
    cases h
    exact .inl ⟨.number m c.current.place, rfl, hone, Cursor.passes_advanced hc,
      Phrase.not_mem_extenders_base _⟩
  · rw [primary_of_opening hc] at h
    obtain ⟨e, c₁, h₁, htake⟩ := bind_eq_ok.mp h
    obtain ⟨t, c₂, h₂, h₃⟩ := bind_eq_ok.mp htake
    obtain ⟨rfl, rfl⟩ := pure_eq_ok.mp h₃
    obtain ⟨e, rfl, he⟩ := hinside (hwf.of_rest hc) hd h₁
    obtain ⟨hclose, -, rfl⟩ := take_eq_ok.mp h₂
    have hc₁ := ((hwf.of_rest hc).of_passes he.passes).rest_eq_mk hclose rfl
    exact .inl ⟨.group c.current.place e c₁.current.place, rfl, within_map_succ.mpr he.within,
      ((Cursor.passes_advanced hc).trans he.passes).trans (Cursor.passes_advanced hc₁),
      Phrase.not_mem_extenders_base _⟩
  · rw [primary_of_function hf hc] at h
    obtain ⟨e, c₁, h₁, h₂⟩ := bind_eq_ok.mp h
    obtain ⟨rfl, rfl⟩ := pure_eq_ok.mp h₂
    obtain ⟨e, rfl, he⟩ := hoperand (hwf.of_rest hc) hd h₁
    exact .inr ⟨f, hf, c.current.place, e, rfl, within_map_succ.mpr he.within,
      (Cursor.passes_advanced hc).trans he.passes, he.stops_sort (by decide)⟩
  · rw [primary_of_not_mem hk] at h
    cases h

theorem derives_raised {inside inner : Rule Expr} (hinside : inside.Derives depth .expression room)
    (hinner : inner.Derives depth .power room) :
    (raised (primary inside inner) inner).Derives depth .power (room + 1) := by
  intro c c' a hwf hd h
  obtain ⟨base, c₁, h₁, -⟩ := bind_eq_ok.mp h
  by_cases hk : c₁.current.kind = .power
  · rcases derives_primary hinside hinner hwf hd h₁ with ⟨b, rfl, hb⟩ | ⟨f, hf, p, e, rfl, he⟩
    · have hwf₁ := hwf.of_passes hb.passes
      have hc₁ := hwf₁.rest_eq_binary (o := .power) hk
      rw [raised_of_power h₁ hc₁] at h
      obtain ⟨e, c₂, h₂, h₃⟩ := bind_eq_ok.mp h
      obtain ⟨rfl, rfl⟩ := pure_eq_ok.mp h₃
      obtain ⟨e, rfl, he⟩ := hinner (hwf₁.of_rest hc₁) (hb.passes.depth.trans hd) h₂
      exact ⟨.raised b c₁.current.place e, rfl,
        within_append.mpr ⟨hb.within, within_map_succ.mpr he.within⟩,
        hb.passes.trans ((Cursor.passes_advanced hc₁).trans he.passes), he.stops_sort (by decide)⟩
    · rw [c₁.kind_current] at hk
      exact absurd (List.mem_singleton.mpr hk) he.stops
  · rw [raised_of_ne h₁ hk] at h
    rw [c₁.kind_current] at hk
    cases h
    rcases derives_primary hinside hinner hwf hd h₁ with ⟨b, rfl, hb⟩ | ⟨f, hf, p, e, rfl, he⟩
    · exact ⟨.alone b, rfl, hb.within, hb.passes, fun hmem => hk (List.mem_singleton.mp hmem)⟩
    · exact ⟨.applied f hf p e, rfl, he⟩

theorem derives_nested {r : Rule Expr} {s : Symbol} (h : r.Derives (depth + 1) s room) :
    (nested r).Derives depth s room := by
  intro c c' a hwf hd hrun
  obtain ⟨c₁, h₁, rfl⟩ := nested_eq_ok.mp hrun
  obtain ⟨p, rfl, hp⟩ := h (c := { c with depth := c.depth + 1 }) hwf (by rw [hd]) h₁
  exact ⟨p, rfl, hp.within, hp.passes.of_deeper, hp.stops⟩

/-! ### The circle -/

theorem derives_expressionOver {power : Rule Expr} (h : power.Derives depth .power room) :
    (expressionOver power).Derives depth .expression room :=
  derives_comparison (derives_chain (t := .sum) (derives_term (derives_chain (t := .product) h)))

theorem derives_powerWithin (room : Nat) :
    ∀ depth : Nat, (powerWithin room).Derives depth .power room := by
  induction room with
  | zero =>
    intro depth c c' a _ _ h
    rw [powerWithin, tooDeep] at h
    split at h <;> cases h
  | succ room ih =>
    intro depth
    have hinner := ih (depth + 1)
    exact derives_nested (derives_raised (derives_expressionOver hinner) hinner)

theorem derives_power (limit depth : Nat) : (power limit).Derives depth .power (limit - depth) := by
  intro c c' a hwf hd h
  rw [power, hd] at h
  exact derives_powerWithin _ _ hwf hd h

theorem derives_expression (limit : Nat) : (expression limit).Derives 0 .expression limit :=
  derives_expressionOver (derives_power limit 0)

/-! ### Statements -/

theorem assigned_derives {expr : Rule Expr} (hexpr : expr.Derives depth .expression room)
    {f : Expr → Statement} {c c' : Cursor} {a : Statement} (hwf : c.WellFormed)
    (hd : c.depth = depth) (h : assigned expr f c = .ok a c') :
    ∃ (q : Place) (e : Phrase .expression), a = f e.tree ∧ Within room e.nestings ∧
      c.Passes (.assigning q :: e.yield) c' ∧ headKind c'.rest ∉ e.extenders := by
  obtain ⟨sign, c₁, h₁, htail⟩ := bind_eq_ok.mp h
  obtain ⟨e, c₂, h₂, htail⟩ := bind_eq_ok.mp htail
  obtain ⟨rfl, rfl⟩ := pure_eq_ok.mp htail
  obtain ⟨hsign, -, rfl⟩ := take_eq_ok.mp h₁
  have hc := hwf.rest_eq_mk hsign rfl
  obtain ⟨e, rfl, he⟩ := hexpr (hwf.of_rest hc) hd h₂
  exact ⟨c.current.place, e, rfl, he.within, (Cursor.passes_advanced hc).trans he.passes, he.stops⟩

theorem statement_derives {expr : Rule Expr} (hexpr : expr.Derives depth .expression room)
    {c c' : Cursor} {a : Statement} (hwf : c.WellFormed) (hd : c.depth = depth)
    (h : statement expr c = .ok a c') :
    ∃ s : Clause, a = s.tree ∧ Within room s.nestings ∧ c.Passes s.yield c' ∧
      headKind c'.rest ∉ s.extenders := by
  rcases hwf.front_of_statement with hc | ⟨id, hc⟩ | hc | hk
  · rw [statement_of_declaring hc] at h
    obtain ⟨name, c₁, h₁, htail⟩ := bind_eq_ok.mp h
    obtain ⟨hname, rfl, rfl⟩ := take_eq_ok.mp h₁
    have hwf₁ := hwf.of_rest hc
    obtain ⟨id, hc₁⟩ := Cursor.exists_name hname
    obtain ⟨q, e, rfl, hn, hp, hstop⟩ := assigned_derives hexpr (hwf₁.of_rest hc₁) hd htail
    refine ⟨.declaration c.current.place id q e, ?_, hn, (Cursor.passes_advanced hc).trans
      ((Cursor.passes_advanced hc₁).trans hp), hstop⟩
    rw [Cursor.current_eq hc₁]
    rfl
  · rw [statement_of_name hc] at h
    obtain ⟨q, e, rfl, hn, hp, hstop⟩ := assigned_derives hexpr (hwf.of_rest hc) hd h
    exact ⟨.assignment id q e, rfl, hn, (Cursor.passes_advanced hc).trans hp, hstop⟩
  · rw [statement_of_printing hc] at h
    obtain ⟨e, c₁, h₁, htail⟩ := bind_eq_ok.mp h
    obtain ⟨rfl, rfl⟩ := pure_eq_ok.mp htail
    obtain ⟨e, rfl, he⟩ := hexpr (hwf.of_rest hc) hd h₁
    exact ⟨.print c.current.place e, rfl, he.within, (Cursor.passes_advanced hc).trans he.passes,
      he.stops⟩
  · rw [statement_of_not_mem hk] at h
    cases h

theorem statementsWithin_derives {expr : Rule Expr} (hexpr : expr.Derives depth .expression room) :
    ∀ (n : Nat) {c c' : Cursor} {as : List Statement}, c.WellFormed → c.depth = depth →
      c.rest.length ≤ n → statementsWithin (statement expr) n c = .ok as c' →
        ∃ ss : List Clause, as = ss.map Clause.tree ∧ Within room (ss.flatMap Clause.nestings) ∧
          c.Passes (ss.flatMap Clause.yield) c' ∧ headKind c'.rest = .finish := by
  intro n
  induction n with
  | zero =>
    intro c c' as _ _ hlen h
    obtain ⟨rfl, rfl⟩ := pure_eq_ok.mp h
    have hnil : c.rest = [] := List.length_eq_zero_iff.mp (by omega)
    exact ⟨[], rfl, by simp [Within], .refl c, by rw [hnil]; rfl⟩
  | succ n ih =>
    intro c c' as hwf hd hlen h
    by_cases hk : c.current.kind = .finish
    · rw [statementsWithin_of_finish hk] at h
      cases h
      exact ⟨[], rfl, by simp [Within], .refl c, by rw [← c.kind_current]; exact hk⟩
    · rw [statementsWithin_of_ne hk] at h
      obtain ⟨a, c₁, h₁, htail⟩ := bind_eq_ok.mp h
      obtain ⟨as, c₂, h₂, htail⟩ := bind_eq_ok.mp htail
      obtain ⟨rfl, rfl⟩ := pure_eq_ok.mp htail
      obtain ⟨s, rfl, hs, hp, -⟩ := statement_derives hexpr hwf hd h₁
      have hlen₁ : c₁.rest.length ≤ n := by
        have hlen' := congrArg List.length hp.rest
        have hpos : 0 < s.yield.length := List.length_pos_iff.mpr s.yield_ne_nil
        rw [List.length_append] at hlen'
        omega
      obtain ⟨ss, rfl, hss, hps, hend⟩ := ih (hwf.of_passes hp) (hp.depth.trans hd) hlen₁ h₂
      refine ⟨s :: ss, rfl, ?_, ?_, hend⟩
      · rw [List.flatMap_cons, within_append]
        exact ⟨hs, hss⟩
      · rw [List.flatMap_cons]
        exact hp.trans hps

theorem program_derives {expr : Rule Expr} (hexpr : expr.Derives depth .expression room)
    {c c' : Cursor} {a : Program} (hwf : c.WellFormed) (hd : c.depth = depth)
    (h : program (statement expr) c = .ok a c') :
    ∃ d : Derivation, a = d.tree ∧ Within room d.nestings ∧ c.Passes d.yield c' ∧
      headKind c'.rest = .finish := by
  rw [program_eq] at h
  obtain ⟨s, c₁, h₁, htail⟩ := bind_eq_ok.mp h
  rw [remaining_bind] at htail
  obtain ⟨ss, c₂, h₂, htail⟩ := bind_eq_ok.mp htail
  obtain ⟨rfl, rfl⟩ := pure_eq_ok.mp htail
  obtain ⟨s, rfl, hs, hp, -⟩ := statement_derives hexpr hwf hd h₁
  obtain ⟨ss, rfl, hss, hps, hend⟩ := statementsWithin_derives hexpr _ (hwf.of_passes hp)
    (hp.depth.trans hd) le_rfl h₂
  have hplace : c.current.place = s.tree.place := by
    rw [Cursor.current, hp.rest]
    cases s <;> rfl
  exact ⟨⟨s, ss⟩, by rw [hplace]; rfl, within_append.mpr ⟨hs, hss⟩, hp.trans hps, hend⟩

end Rule

/-- **A program that is read has a derivation** within the limit, which ends where the text does. -/
theorem Derivation.of_accepted {limit : Nat} {ts : List Token} {p : Program}
    (hwf : ∀ t ∈ ts, t.WellFormed) (h : Program.ofTokensWithin limit ts = .ok p) :
    ∃ (d : Derivation) (rest : List Token), p = d.tree ∧ Within limit d.nestings ∧
      ts = d.yield ++ rest ∧ headKind rest = .finish := by
  rw [Program.ofTokensWithin] at h
  split at h
  · next a c' hrun =>
    cases h
    obtain ⟨d, htree, hn, hp, hend⟩ := Rule.program_derives (Rule.derives_expression limit)
      (c := .ofTokens ts) hwf rfl hrun
    exact ⟨d, c'.rest, htree, hn, hp.rest, hend⟩
  · cases h

end AelSyntax
