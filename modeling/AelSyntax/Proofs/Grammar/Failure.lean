import AelSyntax.Proofs.Grammar.Completeness
import AelSyntax.Proofs.Grammar.Soundness
import Mathlib.Tactic.Common

/-! # Where rules fail

A rule that fails has gone past some tokens and stands at another one. If that token is misplaced,
the tokens before it can be completed, and the rule fails with the same fault in front of whatever
begins with them and the token (`Rule.Misplaces`). If a level of nesting is too many, the tokens
before can be completed where there is more room, and with the room there is nothing that begins
with them is read (`Rule.Exceeds`). Rules fail in no other way on clean tokens (`Rule.Refuses`).

A rule made of others fails where one of them does. Behind the tokens that led there it goes on with
that rule whatever comes next (`Rule.Enters`), and what the rule says about its own tokens carries
over (`Rule.Refused.through`). -/

namespace AelSyntax

/-! ### Clean cursors -/

/-- The tokens in front of a cursor are well formed, and each character belongs to one. -/
structure Cursor.Clean (c : Cursor) : Prop where
  wellFormed : c.WellFormed
  kind_ne_unknown : ∀ t ∈ c.rest, t.kind ≠ .unknown

namespace Cursor.Clean

variable {c c' : Cursor} {ts : List Token}

theorem of_passes (h : c.Clean) (hp : c.Passes ts c') : c'.Clean := by
  refine ⟨h.wellFormed.of_passes hp, fun t ht => h.kind_ne_unknown t ?_⟩
  rw [hp.rest]
  exact List.mem_append_right _ ht

theorem of_rest (h : c.Clean) {t : Token} (hc : c.rest = t :: ts) : c.advanced.Clean :=
  h.of_passes (Cursor.passes_advanced hc)

theorem current_ne_unknown (h : c.Clean) : c.current.kind ≠ .unknown := by
  rw [c.kind_current]
  cases hc : c.rest with
  | nil => exact Kind.noConfusion
  | cons t ts => exact h.kind_ne_unknown t (by rw [hc]; exact List.mem_cons_self)

end Cursor.Clean

/-! ### What a failure says -/

/-- What a sort of phrases may consist of, with room for its nestings. -/
def Symbol.Language (s : Symbol) (room : Nat) (ts : List Token) : Prop :=
  ∃ p : Phrase s, Within room p.nestings ∧ p.yield = ts

namespace Rule

variable {α β : Type}

/-- At a depth, a rule fails in front of everything that begins with some tokens. -/
def FailsOn (r : Rule α) (depth : Nat) (ts : List Token) (faults : Fault → Prop) : Prop :=
  ∀ ⦃c : Cursor⦄ ⦃v : List Token⦄, c.depth = depth → c.rest = ts ++ v →
    ∃ e c', r c = .error e c' ∧ faults e

/-- Behind some tokens a rule goes on with another one, and fails where that one does. -/
def Enters (r : Rule α) (depth : Nat) (ts : List Token) (r' : Rule β) (depth' : Nat) : Prop :=
  ∀ ⦃c : Cursor⦄ ⦃v : List Token⦄, c.depth = depth → c.rest = ts ++ v →
    ∃ c₁, c₁.depth = depth' ∧ c₁.rest = v ∧
      ∀ e c', r' c₁ = .error e c' → ∃ c'', r c = .error e c''

/-- A token is misplaced behind others. -/
structure Misplaces (r : Rule α) (depth room : Nat) (L : Nat → List Token → Prop)
    (ts : List Token) (t : Token) (e : Fault) : Prop where
  eq_refusal : ∃ what, e = t.refusal what
  fails : r.FailsOn depth (ts ++ [t]) (· = e)
  viable : ∃ u, L room (ts ++ u)

/-- A level of nesting behind some tokens is too many. -/
structure Exceeds (r : Rule α) (depth room : Nat) (L : Nat → List Token → Prop)
    (ts : List Token) (t : Token) (e : Fault) : Prop where
  eq_tooDeep : e = .refused .nestedTooDeeply t.place
  fails : r.FailsOn depth ts fun _ => True
  viable : ∃ k u, room ≤ k ∧ L k (ts ++ u)

/-- A rule fails at a token that is misplaced, or where a level is too many. -/
def Refused (r : Rule α) (depth room : Nat) (L : Nat → List Token → Prop) (c : Cursor) (e : Fault)
    (c' : Cursor) : Prop :=
  ∃ ts, c.Passes ts c' ∧
    (r.Misplaces depth room L ts c'.current e ∨ r.Exceeds depth room L ts c'.current e)

/-- On clean tokens a rule fails at a token that is misplaced, or where a level is too many. -/
def Refuses (r : Rule α) (depth room : Nat) (L : Nat → List Token → Prop) : Prop :=
  ∀ ⦃c c' : Cursor⦄ ⦃e : Fault⦄, c.Clean → c.depth = depth → r c = .error e c' →
    r.Refused depth room L c e c'

variable {r : Rule α} {r' : Rule β} {depth depth' room : Nat} {ts ts' : List Token}
  {L L' : Nat → List Token → Prop} {c c₁ c' : Cursor} {e : Fault}

theorem FailsOn.of_enters {faults : Fault → Prop} (h : r'.FailsOn depth' ts' faults)
    (henters : r.Enters depth ts r' depth') : r.FailsOn depth (ts ++ ts') faults := by
  intro c v hd hc
  rw [List.append_assoc] at hc
  obtain ⟨c₁, hd₁, hc₁, hfail⟩ := henters hd hc
  obtain ⟨e, c', he, hfault⟩ := h hd₁ hc₁
  obtain ⟨c'', hr⟩ := hfail e c' he
  exact ⟨e, c'', hr, hfault⟩

/-- A rule fails as the rule does that it goes on with. -/
theorem Refused.through (up : Nat) (hp : c.Passes ts c₁) (henters : r.Enters depth ts r' depth')
    (hL : ∀ k us, room ≤ k → L' k us → ∃ u, L (k + up) (ts ++ us ++ u))
    (h : r'.Refused depth' room L' c₁ e c') : r.Refused depth (room + up) L c e c' := by
  have hviable : ∀ {k : Nat} {us u : List Token}, room ≤ k → L' k (us ++ u) →
      ∃ u', L (k + up) (ts ++ us ++ u') := by
    intro k us u hk hu
    obtain ⟨u', hu'⟩ := hL k _ hk hu
    refine ⟨u ++ u', ?_⟩
    simp only [List.append_assoc] at hu' ⊢
    exact hu'
  obtain ⟨us, hp', ⟨hwhat, hfails, u, hu⟩ | ⟨heq, hfails, k, u, hk, hu⟩⟩ := h
  · refine ⟨ts ++ us, hp.trans hp', .inl ⟨hwhat, ?_, hviable le_rfl hu⟩⟩
    rw [List.append_assoc]
    exact hfails.of_enters henters
  · obtain ⟨u', hu'⟩ := hviable hk hu
    exact ⟨ts ++ us, hp.trans hp',
      .inr ⟨heq, hfails.of_enters henters, k + up, u', by omega, hu'⟩⟩

/-- What a rule does for a sort of phrases: it reads each of them and nothing else, and it fails
where it should. -/
structure Parses (r : Rule Expr) (depth : Nat) (s : Symbol) (room : Nat) : Prop where
  accepts : r.Accepts depth s room
  derives : r.Derives depth s room
  refuses : r.Refuses depth room s.Language

/-! ### Chains -/

theorem chainWithin_error {t : Tier} {operand : Rule Expr}
    (hoperand : operand.Derives depth t.operand room) :
    ∀ (n : Nat) {left : Expr} {c c' : Cursor} {e : Fault}, c.WellFormed → c.depth = depth →
      chainWithin t.kinds operand n left c = .error e c' →
        ∃ (m : Links t) (op : BinaryOp) (p : Place) (c₁ : Cursor), op.tier? = some t ∧
          Within room m.nestings ∧ c.Passes (m.yield ++ [op.token p]) c₁ ∧
            operand c₁ = .error e c' := by
  intro n
  induction n with
  | zero => intro left c c' e _ _ h; cases h
  | succ n ih =>
    intro left c c' e hwf hd h
    by_cases hk : c.current.kind ∈ t.kinds
    · obtain ⟨op, hop, htier⟩ := Tier.exists_op hk
      have hc := hwf.rest_eq_binary hop.symm
      rw [chainWithin_of_mem (BinaryOp.kind_mem_kinds htier) hc] at h
      rcases bind_eq_error.mp h with h₁ | ⟨right, c₁, h₁, h₂⟩
      · exact ⟨.done, op, _, c.advanced, htier, by simp [Links.nestings, Within],
          Cursor.passes_advanced hc, h₁⟩
      · obtain ⟨f, rfl, hf⟩ := hoperand (hwf.of_rest hc) hd h₁
        obtain ⟨m, op', p, c₂, htier', hm, hp, h₃⟩ := ih ((hwf.of_rest hc).of_passes hf.passes)
          (hf.passes.depth.trans hd) h₂
        refine ⟨.link op htier c.current.place f m, op', p, c₂, htier',
          within_append.mpr ⟨hf.within, hm⟩, ?_, h₃⟩
        rw [Links.yield, List.cons_append, List.append_assoc]
        exact (Cursor.passes_advanced hc).trans (hf.passes.trans hp)
    · rw [chainWithin_of_not_mem hk] at h
      cases h

theorem chainWithin_enters {t : Tier} {operand : Rule Expr}
    (hoperand : operand.Accepts depth t.operand room) {op : BinaryOp} (hop : op.tier? = some t)
    (p : Place) : ∀ (m : Links t) (left : Expr) {n : Nat} {c : Cursor} {v : List Token},
      Within room m.nestings → c.depth = depth → c.rest = m.yield ++ op.token p :: v →
        m.yield.length < n → ∃ c₁, c₁.depth = depth ∧ c₁.rest = v ∧
          ∀ e c', operand c₁ = .error e c' →
            ∃ c'', chainWithin t.kinds operand n left c = .error e c''
  | .done, left, n, c, v, _, hd, hc, hlen => by
    obtain ⟨n, rfl⟩ : ∃ n', n = n' + 1 := ⟨n - 1, by omega⟩
    refine ⟨c.advanced, hd, Cursor.rest_advanced hc, fun e c' h => ⟨c', ?_⟩⟩
    rw [chainWithin_of_mem (BinaryOp.kind_mem_kinds hop) hc, bind_of_error h]
  | .link op' hop' p' f more, left, n, c, v, hn, hd, hc, hlen => by
    rw [Links.yield, List.cons_append, List.append_assoc] at hc
    rw [Links.nestings, within_append] at hn
    rw [Links.yield, List.length_cons, List.length_append] at hlen
    obtain ⟨n, rfl⟩ : ∃ n', n = n' + 1 := ⟨n - 1, by omega⟩
    have hnext : headKind (more.yield ++ op.token p :: v) ∉ t.operand.extenders :=
      more.headKind_not_mem (Tier.not_mem_extenders (BinaryOp.kind_mem_kinds hop))
    obtain ⟨c₁, h₁, hp₁⟩ := hoperand f hn.1 (c := c.advanced) hd (Cursor.rest_advanced hc)
      (f.not_mem_extenders hnext)
    obtain ⟨c₂, hd₂, hc₂, hfail⟩ := chainWithin_enters hoperand hop p more
      (.binary op' left f.tree left.place) (n := n) hn.2 (hp₁.depth.trans hd)
      (hp₁.rest_eq (Cursor.rest_advanced hc)) (by omega)
    refine ⟨c₂, hd₂, hc₂, fun e c' h => ?_⟩
    rw [chainWithin_of_mem (BinaryOp.kind_mem_kinds hop') hc, bind_of_ok h₁]
    exact hfail e c' h

theorem chain_enters {t : Tier} {operand : Rule Expr}
    (hoperand : operand.Accepts depth t.operand room) (first : Phrase t.operand) (m : Links t)
    {op : BinaryOp} (hop : op.tier? = some t) (p : Place) (hfirst : Within room first.nestings)
    (hm : Within room m.nestings) :
    (chain t.kinds operand).Enters depth (first.yield ++ (m.yield ++ [op.token p])) operand
      depth := by
  intro c v hd hc
  simp only [List.append_assoc, List.singleton_append] at hc
  have hnext : headKind (m.yield ++ op.token p :: v) ∉ t.operand.extenders :=
    m.headKind_not_mem (Tier.not_mem_extenders (BinaryOp.kind_mem_kinds hop))
  obtain ⟨c₁, h₁, hp₁⟩ := hoperand first hfirst hd hc (first.not_mem_extenders hnext)
  have hc₁ := hp₁.rest_eq hc
  have hlen : m.yield.length < c₁.rest.length := by
    rw [hc₁, List.length_append, List.length_cons]
    omega
  obtain ⟨c₂, hd₂, hc₂, hfail⟩ := chainWithin_enters hoperand hop p m first.tree hm
    (hp₁.depth.trans hd) hc₁ hlen
  refine ⟨c₂, hd₂, hc₂, fun e c' h => ?_⟩
  rw [chain, bind_of_ok h₁, remaining_bind]
  exact hfail e c' h

theorem enters_of_bind {f : α → Rule β} (depth : Nat) (g : Rule α) :
    (g >>= f).Enters depth [] g depth := fun c _ hd hc =>
  ⟨c, hd, hc, fun _ c' h => ⟨c', bind_of_error h⟩⟩

theorem parses_chain {t : Tier} {operand : Rule Expr}
    (h : operand.Parses depth t.operand room) :
    (chain t.kinds operand).Parses depth (.chain t) room := by
  refine ⟨accepts_chain h.accepts, derives_chain h.derives, fun c c' e hcl hd hrun => ?_⟩
  rcases bind_eq_error.mp hrun with h₁ | ⟨left, c₁, h₁, h₂⟩
  · refine Refused.through 0 (.refl c) (enters_of_bind depth operand) ?_ (h.refuses hcl hd h₁)
    rintro k _ - ⟨p, hp, rfl⟩
    exact ⟨[], .chain p .done, by simpa [Phrase.nestings, Links.nestings] using hp,
      by simp [Phrase.yield, Links.yield]⟩
  · obtain ⟨first, rfl, hfirst⟩ := h.derives hcl.wellFormed hd h₁
    rw [remaining_bind] at h₂
    obtain ⟨m, op, p, c₂, hop, hm, hp, h₃⟩ := chainWithin_error h.derives _
      (hcl.of_passes hfirst.passes).wellFormed (hfirst.passes.depth.trans hd) h₂
    have hp₂ := hfirst.passes.trans hp
    refine Refused.through 0 hp₂ (chain_enters h.accepts first m hop p hfirst.within hm) ?_
      (h.refuses (hcl.of_passes hp₂) (hp₂.depth.trans hd) h₃)
    rintro k _ hk ⟨f, hf, rfl⟩
    refine ⟨[], .chain first (m.snoc op hop p f), ?_, ?_⟩
    · rw [Phrase.nestings, Links.nestings_snoc, within_append, within_append]
      exact ⟨hfirst.within.mono hk, hm.mono hk, hf⟩
    · simp [Phrase.yield, Links.yield_snoc]

/-! ### Terms and comparisons -/

theorem parses_term {product : Rule Expr} (h : product.Parses depth (.chain .product) room) :
    (term product).Parses depth .term room := by
  refine ⟨accepts_term h.accepts, derives_term h.derives, fun c c' e hcl hd hrun => ?_⟩
  by_cases hk : c.current.kind = .minus
  · have hc := hcl.wellFormed.rest_eq_unary (o := .negate) hk
    have henters : (term product).Enters depth [UnaryOp.negate.token c.current.place] product
        depth := by
      intro c₁ v hd₁ hc₁
      refine ⟨c₁.advanced, hd₁, Cursor.rest_advanced hc₁, fun e c' h => ⟨c', ?_⟩⟩
      rw [term_of_minus hc₁, bind_of_error h]
    rw [term_of_minus hc] at hrun
    rcases bind_eq_error.mp hrun with h₁ | ⟨_, _, _, h₁⟩
    · refine Refused.through 0 (Cursor.passes_advanced hc) henters ?_
        (h.refuses (hcl.of_rest hc) hd h₁)
      rintro k _ - ⟨f, hf, rfl⟩
      exact ⟨[], .negated c.current.place f, hf, by simp [Phrase.yield]⟩
    · cases h₁
  · rw [term_of_ne hk] at hrun
    obtain ⟨ts, hp, hcase⟩ := h.refuses hcl hd hrun
    have hbare : ∀ {k : Nat} {ts : List Token}, (Symbol.chain .product).Language k ts →
        Symbol.term.Language k ts := fun ⟨f, hf, hy⟩ => ⟨.bare f, hf, hy⟩
    refine ⟨ts, hp, ?_⟩
    rcases hcase with ⟨hwhat, hfails, u, hu⟩ | ⟨heq, hfails, k, u, hle, hu⟩
    · refine .inl ⟨hwhat, fun c₁ v hd₁ hc₁ => ?_, u, hbare hu⟩
      have hk₁ : c₁.current.kind ≠ .minus := by
        rw [c₁.kind_current, hc₁, hp.headKind_append]
        exact hk
      rw [term_of_ne hk₁]
      exact hfails hd₁ hc₁
    · refine .inr ⟨heq, fun c₁ v hd₁ hc₁ => ?_, k, u, hle, hbare hu⟩
      by_cases hk₁ : c₁.current.kind = .minus
      · cases ts with
        | nil =>
          -- nothing was read, so the product fails behind the sign as well
          obtain ⟨e, c₂, h₂, -⟩ := hfails (c := c₁.advanced) hd₁ rfl
          exact ⟨e, c₂, by rw [term_of_kind hk₁, bind_of_error h₂], trivial⟩
        | cons t ts =>
          rw [Cursor.current_eq hc₁, ← Cursor.current_eq hp.rest] at hk₁
          exact absurd hk₁ hk
      · rw [term_of_ne hk₁]
        exact hfails hd₁ hc₁

theorem parses_comparison {sum : Rule Expr} (h : sum.Parses depth (.chain .sum) room) :
    (comparison sum).Parses depth .expression room := by
  refine ⟨accepts_comparison h.accepts, derives_comparison h.derives,
    fun c c' e hcl hd hrun => ?_⟩
  rcases bind_eq_error.mp hrun with h₁ | ⟨left, c₁, h₁, -⟩
  · refine Refused.through 0 (.refl c) (enters_of_bind depth sum) ?_ (h.refuses hcl hd h₁)
    rintro k _ - ⟨p, hp, rfl⟩
    exact ⟨[], .plain p, hp, by simp [Phrase.yield]⟩
  · obtain ⟨l, rfl, hl⟩ := h.derives hcl.wellFormed hd h₁
    by_cases hk : c₁.current.kind = .equals
    · have hcl₁ := hcl.of_passes hl.passes
      have hc₁ := hcl₁.wellFormed.rest_eq_binary (o := .equals) hk
      have henters : (comparison sum).Enters depth
          (l.yield ++ [BinaryOp.equals.token c₁.current.place]) sum depth := by
        intro c₂ v hd₂ hc₂
        rw [List.append_assoc] at hc₂
        obtain ⟨c₃, h₃, hp₃⟩ := h.accepts l hl.within hd₂ hc₂
          (l.not_mem_extenders Symbol.equals_not_mem_sum)
        have hc₃ := hp₃.rest_eq hc₂
        refine ⟨c₃.advanced, hp₃.depth.trans hd₂, Cursor.rest_advanced hc₃,
          fun e c' h => ⟨c', ?_⟩⟩
        rw [comparison_of_equals h₃ hc₃, bind_of_error h]
      rw [comparison_of_equals h₁ hc₁] at hrun
      rcases bind_eq_error.mp hrun with h₂ | ⟨_, _, _, h₂⟩
      · refine Refused.through 0 (hl.passes.trans (Cursor.passes_advanced hc₁)) henters ?_
          (h.refuses (hcl₁.of_rest hc₁) (hl.passes.depth.trans hd) h₂)
        rintro k _ hle ⟨p, hp, rfl⟩
        exact ⟨[], .compared l c₁.current.place p, within_append.mpr ⟨hl.within.mono hle, hp⟩,
          by simp [Phrase.yield]⟩
      · cases h₂
    · rw [comparison_of_ne h₁ hk] at hrun
      cases hrun

/-! ### Powers -/

/-- A power that any room allows. -/
def somePower : Phrase .power := .alone (.name ⟨"x", .start⟩)

theorem within_somePower (room : Nat) : Within (room + 1) somePower.nestings := by
  intro n hn
  obtain rfl := List.mem_singleton.mp hn
  omega

/-- Behind a function a primary goes on with the operand. -/
theorem primary_enters_operand {inside operand : Rule Expr} (depth : Nat) {f : UnaryOp}
    (hf : f ≠ .negate) (p : Place) :
    (primary inside operand).Enters depth [f.token p] operand depth := by
  intro c v hd hc
  refine ⟨c.advanced, hd, Cursor.rest_advanced hc, fun e c' h => ⟨c', ?_⟩⟩
  rw [primary_of_function hf hc, bind_of_error h]

/-- Behind an opening parenthesis a primary goes on with the expression inside. -/
theorem primary_enters_inside {inside operand : Rule Expr} (depth : Nat) (p : Place) :
    (primary inside operand).Enters depth [.opening p] inside depth := by
  intro c v hd hc
  refine ⟨c.advanced, hd, Cursor.rest_advanced hc, fun e c' h => ⟨c', ?_⟩⟩
  rw [primary_of_opening hc, bind_of_error h]

/-- Behind an expression in parentheses a primary fails at whatever is no closing parenthesis and
does not continue the expression. -/
theorem primary_failsOn_group {inside operand : Rule Expr}
    (hinside : inside.Accepts depth .expression room) {p : Phrase .expression}
    (hp : Within room p.nestings) (q : Place) {t : Token} (hstop : t.kind ∉ p.extenders)
    (hclose : t.kind ≠ .closeParen) :
    (primary inside operand).FailsOn depth ((.opening q :: p.yield) ++ [t])
      (· = t.refusal "')'") := by
  intro c v hd hc
  rw [List.append_assoc, List.cons_append] at hc
  obtain ⟨c₁, h₁, hp₁⟩ := hinside p hp (c := c.advanced) hd (Cursor.rest_advanced hc) hstop
  have hc₁ := hp₁.rest_eq (Cursor.rest_advanced hc)
  rw [← Cursor.current_eq hc₁] at hclose ⊢
  refine ⟨_, c₁, ?_, rfl⟩
  rw [primary_of_opening hc, bind_of_ok h₁, bind_of_error (take_of_ne hclose)]

theorem primary_refuses {inside operand : Rule Expr}
    (hinside : inside.Parses depth .expression room) (hoperand : operand.Parses depth .power room) :
    (primary inside operand).Refuses depth (room + 1) Symbol.power.Language := by
  intro c c' e hcl hd hrun
  rcases hcl.wellFormed.front_of_power with ⟨id, hc⟩ | ⟨m, hc⟩ | hc | ⟨f, hf, hc⟩ | hk
  · rw [primary_of_name hc] at hrun
    cases hrun
  · rw [primary_of_number hc] at hrun
    cases hrun
  · rw [primary_of_opening hc] at hrun
    have hviable : ∀ {k : Nat} {us : List Token}, Symbol.expression.Language k us →
        ∃ u, Symbol.power.Language (k + 1) (Token.opening c.current.place :: us ++ u) := by
      rintro k _ ⟨p, hp, rfl⟩
      exact ⟨[.closing .start], .alone (.group c.current.place p .start), within_map_succ.mpr hp,
        by simp [Phrase.yield]⟩
    rcases bind_eq_error.mp hrun with h₁ | ⟨a, c₁, h₁, htake⟩
    · exact Refused.through 1 (Cursor.passes_advanced hc) (primary_enters_inside depth _)
        (fun k us _ hus => hviable hus) (hinside.refuses (hcl.of_rest hc) hd h₁)
    · rcases bind_eq_error.mp htake with h₂ | ⟨_, _, _, h₂⟩
      · obtain ⟨p, rfl, hp⟩ := hinside.derives (hcl.of_rest hc).wellFormed hd h₁
        obtain ⟨hclose, rfl, rfl⟩ := take_eq_error.mp h₂
        have hstop : c'.current.kind ∉ p.extenders := by
          rw [c'.kind_current]
          exact hp.stops
        refine ⟨.opening c.current.place :: p.yield, (Cursor.passes_advanced hc).trans hp.passes,
          .inl ⟨⟨_, rfl⟩, ?_, hviable ⟨p, hp.within, rfl⟩⟩⟩
        exact primary_failsOn_group hinside.accepts hp.within _ hstop hclose
      · cases h₂
  · rw [primary_of_function hf hc] at hrun
    rcases bind_eq_error.mp hrun with h₁ | ⟨_, _, _, h₁⟩
    · refine Refused.through 1 (Cursor.passes_advanced hc) (primary_enters_operand depth hf _) ?_
        (hoperand.refuses (hcl.of_rest hc) hd h₁)
      rintro k _ - ⟨p, hp, rfl⟩
      exact ⟨[], .applied f hf c.current.place p, within_map_succ.mpr hp, by simp [Phrase.yield]⟩
    · cases h₁
  · rw [primary_of_not_mem hk] at hrun
    cases hrun
    refine ⟨[], .refl c, .inl ⟨⟨_, rfl⟩, fun c₁ v _ hc₁ => ?_,
      somePower.yield, somePower, within_somePower room, rfl⟩⟩
    rw [← Cursor.current_eq hc₁] at hk ⊢
    exact ⟨_, c₁, primary_of_not_mem hk, rfl⟩

theorem raised_enters {inside inner : Rule Expr} (hinside : inside.Accepts depth .expression room)
    {b : Phrase .base} (hb : Within (room + 1) b.nestings) (p : Place) :
    (raised (primary inside inner) inner).Enters depth (b.yield ++ [BinaryOp.power.token p]) inner
      depth := by
  intro c v hd hc
  rw [List.append_assoc] at hc
  obtain ⟨c₁, h₁, hp₁⟩ := accepts_primary hinside b hb hd hc b.not_mem_extenders_base
  have hc₁ := hp₁.rest_eq hc
  refine ⟨c₁.advanced, hp₁.depth.trans hd, Cursor.rest_advanced hc₁, fun e c' h => ⟨c', ?_⟩⟩
  rw [raised_of_power h₁ hc₁, bind_of_error h]

theorem parses_raised {inside inner : Rule Expr} (hinside : inside.Parses depth .expression room)
    (hinner : inner.Parses depth .power room) :
    (raised (primary inside inner) inner).Parses depth .power (room + 1) := by
  refine ⟨accepts_raised hinside.accepts hinner.accepts,
    derives_raised hinside.derives hinner.derives, fun c c' e hcl hd hrun => ?_⟩
  rcases bind_eq_error.mp hrun with h₁ | ⟨base, c₁, h₁, -⟩
  · refine Refused.through 0 (.refl c) (enters_of_bind depth _) ?_
      (primary_refuses hinside hinner hcl hd h₁)
    exact fun k us _ hus => ⟨[], by simpa using hus⟩
  · by_cases hk : c₁.current.kind = .power
    · rcases derives_primary hinside.derives hinner.derives hcl.wellFormed hd h₁ with
        ⟨b, rfl, hb⟩ | ⟨f, hf, p, e, rfl, he⟩
      · have hcl₁ := hcl.of_passes hb.passes
        have hc₁ := hcl₁.wellFormed.rest_eq_binary (o := .power) hk
        rw [raised_of_power h₁ hc₁] at hrun
        rcases bind_eq_error.mp hrun with h₂ | ⟨_, _, _, h₂⟩
        · refine Refused.through 1 (hb.passes.trans (Cursor.passes_advanced hc₁))
            (raised_enters hinside.accepts hb.within _) ?_
            (hinner.refuses (hcl₁.of_rest hc₁) (hb.passes.depth.trans hd) h₂)
          rintro k _ hle ⟨p, hp, rfl⟩
          exact ⟨[], .raised b c₁.current.place p,
            within_append.mpr ⟨hb.within.mono (by omega), within_map_succ.mpr hp⟩,
            by simp [Phrase.yield]⟩
        · cases h₂
      · rw [c₁.kind_current] at hk
        exact absurd (List.mem_singleton.mpr hk) he.stops
    · rw [raised_of_ne h₁ hk] at hrun
      cases hrun

/-! ### The circle -/

theorem FailsOn.nested {r : Rule α} {faults : Fault → Prop}
    (h : r.FailsOn (depth + 1) ts faults) : (nested r).FailsOn depth ts faults := by
  intro c v hd hc
  obtain ⟨e, c', he, hfault⟩ := h (c := { c with depth := c.depth + 1 }) (by rw [hd]) hc
  exact ⟨e, _, nested_of_error he, hfault⟩

theorem parses_nested {r : Rule Expr} {s : Symbol} (h : r.Parses (depth + 1) s room) :
    (nested r).Parses depth s room := by
  refine ⟨accepts_nested h.accepts, derives_nested h.derives, fun c c' e hcl hd hrun => ?_⟩
  obtain ⟨c₁, h₁, rfl⟩ := nested_eq_error.mp hrun
  obtain ⟨ts, hp, hcase⟩ := h.refuses (c := { c with depth := c.depth + 1 })
    ⟨hcl.wellFormed, hcl.kind_ne_unknown⟩ (by rw [hd]) h₁
  refine ⟨ts, hp.of_deeper, ?_⟩
  rcases hcase with ⟨hwhat, hfails, hviable⟩ | ⟨heq, hfails, hviable⟩
  · exact .inl ⟨hwhat, hfails.nested, hviable⟩
  · exact .inr ⟨heq, hfails.nested, hviable⟩

theorem parses_expressionOver {power : Rule Expr} (h : power.Parses depth .power room) :
    (expressionOver power).Parses depth .expression room :=
  parses_comparison (parses_chain (t := .sum) (parses_term (parses_chain (t := .product) h)))

theorem tooDeep_refuses (depth : Nat) :
    (tooDeep : Rule Expr).Refuses depth 0 Symbol.power.Language := by
  intro c c' e hcl _ hrun
  rw [tooDeep, if_neg hcl.current_ne_unknown] at hrun
  cases hrun
  refine ⟨[], .refl c, .inr ⟨rfl, fun c₁ v _ _ => ?_, 1, somePower.yield, Nat.zero_le 1,
    somePower, within_somePower 0, rfl⟩⟩
  rw [tooDeep]
  split_ifs
  · exact ⟨_, c₁, rfl, trivial⟩
  · exact ⟨_, c₁, rfl, trivial⟩

theorem parses_powerWithin (room : Nat) :
    ∀ depth : Nat, (powerWithin room).Parses depth .power room := by
  induction room with
  | zero =>
    exact fun depth =>
      ⟨accepts_powerWithin 0 depth, derives_powerWithin 0 depth, tooDeep_refuses depth⟩
  | succ room ih =>
    intro depth
    have hinner := ih (depth + 1)
    exact parses_nested (parses_raised (parses_expressionOver hinner) hinner)

theorem parses_power (limit depth : Nat) : (power limit).Parses depth .power (limit - depth) := by
  refine ⟨accepts_power limit depth, derives_power limit depth, fun c c' e hcl hd hrun => ?_⟩
  have henters : (power limit).Enters depth [] (powerWithin (limit - depth)) depth := by
    intro c v hd hc
    refine ⟨c, hd, hc, fun e c' h => ⟨c', ?_⟩⟩
    rw [power, hd]
    exact h
  rw [power, hd] at hrun
  exact Refused.through 0 (.refl c) henters (fun k us _ hus => ⟨[], by simpa using hus⟩)
    ((parses_powerWithin _ depth).refuses hcl hd hrun)

theorem parses_expression (limit : Nat) : (expression limit).Parses 0 .expression limit :=
  parses_expressionOver (parses_power limit 0)

end Rule

end AelSyntax
