import AelSyntax.Proofs.Grammar.CorrectPrefix
import AelSyntax.Proofs.Grammar.Location
import AelSyntax.Session
import Mathlib.Tactic.Common

/-! # Entries that are cut short

A session takes an entry to be cut short if a parenthesis is open or if its last token asks for
another one (`Unfinished`). No phrase of the grammar is so: its parentheses are closed, and it ends
with a name, a number or a parenthesis (`Settled`). Where the text ends in the middle of an
expression, what has been passed of it is unfinished, or there is nothing of it yet (`Begun`); this
holds of each rule for expressions if it holds of those it is made of (`Rule.Suspends`). The sign of
an assignment is the only thing whose lack goes unnoticed.

* `needsMore_tokensOf`: so the session and the grammar agree on what is cut short. -/

namespace AelSyntax

/-! ### Parentheses -/

theorem foldl_opens (ts : List Token) : ∀ n : Int,
    ts.foldl (fun n t => n + t.kind.opens) n = n + openParens ts := by
  induction ts with
  | nil =>
    intro n
    exact (Int.add_zero n).symm
  | cons t ts ih =>
    intro n
    have hcons : openParens (t :: ts) = 0 + t.kind.opens + openParens ts := ih _
    rw [List.foldl_cons, ih, hcons, Int.zero_add, Int.add_assoc]

@[simp] theorem openParens_nil : openParens [] = 0 := rfl

@[simp] theorem openParens_cons (t : Token) (ts : List Token) :
    openParens (t :: ts) = t.kind.opens + openParens ts := by
  rw [openParens, List.foldl_cons, foldl_opens, Int.zero_add]

@[simp] theorem openParens_append (as bs : List Token) :
    openParens (as ++ bs) = openParens as + openParens bs := by
  rw [openParens, List.foldl_append, foldl_opens]
  rfl

@[simp] theorem BinaryOp.opens_kind (o : BinaryOp) : o.kind.opens = 0 := by cases o <;> rfl

@[simp] theorem UnaryOp.opens_kind (o : UnaryOp) : o.kind.opens = 0 := by cases o <;> rfl

/-! ### Phrases are settled -/

/-- Every parenthesis is closed, and the last token asks for no other one. -/
structure Settled (ts : List Token) : Prop where
  openParens_eq : openParens ts = 0
  exists_last : ∃ us t, ts = us ++ [t] ∧ t.kind.asksForMore = false

theorem Settled.append {as bs : List Token} (h : Settled bs) (ha : openParens as = 0) :
    Settled (as ++ bs) := by
  obtain ⟨hb, us, t, rfl, ht⟩ := h
  exact ⟨by rw [openParens_append, ha, hb, Int.add_zero], as ++ us, t,
    (List.append_assoc _ _ _).symm, ht⟩

theorem Settled.cons {t : Token} {ts : List Token} (h : Settled ts) (ht : t.kind.opens = 0) :
    Settled (t :: ts) :=
  have hopen : openParens [t] = 0 := by rw [openParens_cons, ht, openParens_nil, Int.add_zero]
  h.append hopen

mutual

theorem Phrase.settled : ∀ {s : Symbol} (p : Phrase s), Settled p.yield
  | _, .plain s => s.settled
  | _, .compared l p r => (r.settled.cons BinaryOp.equals.opens_kind).append l.settled.openParens_eq
  | _, .chain first more => more.settled_append first.settled
  | _, .bare f => f.settled
  | _, .negated p f => f.settled.cons UnaryOp.negate.opens_kind
  | _, .alone b => b.settled
  | _, .raised b p e => (e.settled.cons BinaryOp.power.opens_kind).append b.settled.openParens_eq
  | _, .applied f _ p e => e.settled.cons f.opens_kind
  | _, .name id => ⟨rfl, [], id.token, rfl, rfl⟩
  | _, .number n p => ⟨rfl, [], n.token p, rfl, rfl⟩
  | _, .group p e q => by
    refine ⟨?_, .opening p :: e.yield, .closing q, rfl, rfl⟩
    rw [Phrase.yield, openParens_cons, openParens_append, e.settled.openParens_eq]
    rfl

theorem Links.settled_append : ∀ {t : Tier} (m : Links t) {ts : List Token}, Settled ts →
    Settled (ts ++ m.yield)
  | _, .done, ts, h => by
    rw [Links.yield, List.append_nil]
    exact h
  | _, .link op _ p e more, ts, h => by
    have hlink : Settled (op.token p :: e.yield) := e.settled.cons op.opens_kind
    have hrest := more.settled_append (hlink.append h.openParens_eq)
    rw [Links.yield]
    simpa using hrest

end

theorem Clause.settled (s : Clause) : Settled s.yield := by
  cases s with
  | declaration p name q e => exact ((e.settled.cons rfl).cons rfl).cons rfl
  | assignment target q e => exact (e.settled.cons rfl).cons rfl
  | print p e => exact e.settled.cons rfl

theorem openParens_clauses (ss : List Clause) : openParens (ss.flatMap Clause.yield) = 0 := by
  induction ss with
  | nil => rfl
  | cons s ss ih => rw [List.flatMap_cons, openParens_append, s.settled.openParens_eq, ih]; rfl

theorem Derivation.settled (d : Derivation) : Settled d.yield := by
  have hall : ∀ (ss : List Clause) {ts : List Token}, Settled ts →
      Settled (ts ++ ss.flatMap Clause.yield) := by
    intro ss
    induction ss with
    | nil => intro ts h; simpa using h
    | cons s ss ih =>
      intro ts h
      have hmore := ih (s.settled.append h.openParens_eq)
      simpa using hmore
  exact hall d.more d.first.settled

/-! ### Where the text ends in an expression -/

/-- A parenthesis is open, or the last token asks for another one. -/
def Unfinished (ts : List Token) : Prop :=
  0 < openParens ts ∨ ∃ us t, ts = us ++ [t] ∧ t.kind.asksForMore = true

theorem Settled.not_unfinished {ts : List Token} (h : Settled ts) : ¬ Unfinished ts := by
  obtain ⟨hparens, us, t, rfl, ht⟩ := h
  rintro (hpos | ⟨us', t', heq, ht'⟩)
  · omega
  · obtain ⟨-, hlast⟩ := List.append_inj' heq rfl
    obtain ⟨rfl, -⟩ := List.cons.inj hlast
    rw [ht] at ht'
    cases ht'

/-- What has been passed of an expression where the text ends: no parenthesis is closed that was not
opened, and it is unfinished, unless there is nothing yet. -/
structure Begun (ts : List Token) : Prop where
  balance : 0 ≤ openParens ts
  unfinished : ts = [] ∨ Unfinished ts

theorem begun_nil : Begun [] := ⟨Int.le_refl 0, .inl rfl⟩

theorem Kind.opens_nonneg {k : Kind} (h : k.asksForMore = true) : 0 ≤ k.opens := by
  cases k <;> first | decide | cases h

/-- Behind a token that asks for more, what has been begun is unfinished. -/
theorem Begun.unfinished_append {ts us : List Token} {t : Token} (h : Begun ts)
    (hus : 0 ≤ openParens us) (ht : t.kind.asksForMore = true) : Unfinished (us ++ t :: ts) := by
  have ht' := Kind.opens_nonneg ht
  rcases h.unfinished with rfl | hpos | ⟨us', t', rfl, hlast⟩
  · exact .inr ⟨us, t, rfl, ht⟩
  · refine .inl ?_
    rw [openParens_append, openParens_cons]
    omega
  · exact .inr ⟨us ++ t :: us', t', by simp, hlast⟩

theorem Begun.append {ts us : List Token} {t : Token} (h : Begun ts) (hus : 0 ≤ openParens us)
    (ht : t.kind.asksForMore = true) : Begun (us ++ t :: ts) := by
  refine ⟨?_, .inr (h.unfinished_append hus ht)⟩
  have ht' := Kind.opens_nonneg ht
  have hts := h.balance
  rw [openParens_append, openParens_cons]
  omega

theorem Begun.unfinished_cons {ts : List Token} {t : Token} (h : Begun ts)
    (ht : t.kind.asksForMore = true) : Unfinished (t :: ts) :=
  have hnil : 0 ≤ openParens [] := Int.le_refl 0
  h.unfinished_append hnil ht

theorem Begun.cons {ts : List Token} {t : Token} (h : Begun ts) (ht : t.kind.asksForMore = true) :
    Begun (t :: ts) :=
  have hnil : 0 ≤ openParens [] := Int.le_refl 0
  h.append hnil ht

theorem Unfinished.append {ts us : List Token} (h : Unfinished ts) (hus : 0 ≤ openParens us) :
    Unfinished (us ++ ts) := by
  rcases h with hpos | ⟨us', t, rfl, ht⟩
  · refine .inl ?_
    rw [openParens_append]
    omega
  · exact .inr ⟨us ++ us', t, by simp, ht⟩

theorem Settled.balance {ts : List Token} (h : Settled ts) : 0 ≤ openParens ts :=
  Int.le_of_eq h.openParens_eq.symm

/-- Behind the name of a declaration or an assignment the sign is missing. -/
def Fault.MissesSign (e : Fault) : Prop := ∃ found p, e = .refused (.expected "'='" found) p

theorem Token.not_missesSign_refusal (t : Token) {what : String} (h : what ≠ "'='") :
    ¬ (t.refusal what).MissesSign := by
  rintro ⟨found, p, heq⟩
  rw [refusal] at heq
  split_ifs at heq
  · cases heq
  · cases heq
    exact h rfl

theorem BinaryOp.asksForMore_kind (o : BinaryOp) : o.kind.asksForMore = true := by cases o <;> rfl

theorem UnaryOp.asksForMore_kind (o : UnaryOp) : o.kind.asksForMore = true := by cases o <;> rfl

namespace Rule

/-- Where the text ends while a rule reads an expression, what it has passed has only been begun. -/
def Suspends (r : Rule Expr) (depth : Nat) : Prop :=
  ∀ ⦃c c' : Cursor⦄ ⦃e : Fault⦄, c.WellFormed → c.depth = depth → r c = .error e c' →
    c'.current.kind = .finish → ∃ ts, c.Passes ts c' ∧ Begun ts ∧ ¬ e.MissesSign

variable {depth room : Nat}

theorem suspends_chain {t : Tier} {operand : Rule Expr}
    (hoperand : operand.Derives depth t.operand room) (h : operand.Suspends depth) :
    (chain t.kinds operand).Suspends depth := by
  intro c c' e hwf hd hrun hend
  rcases bind_eq_error.mp hrun with h₁ | ⟨left, c₁, h₁, h₂⟩
  · exact h hwf hd h₁ hend
  · obtain ⟨first, rfl, hfirst⟩ := hoperand hwf hd h₁
    rw [remaining_bind] at h₂
    obtain ⟨m, op, p, c₂, -, -, hp, h₃⟩ := chainWithin_error hoperand _
      (hwf.of_passes hfirst.passes) (hfirst.passes.depth.trans hd) h₂
    have hp₂ := hfirst.passes.trans hp
    obtain ⟨ts, hpts, hts, he⟩ := h (hwf.of_passes hp₂) (hp₂.depth.trans hd) h₃ hend
    have hbegun : Begun (first.yield ++ m.yield ++ op.token p :: ts) :=
      hts.append (m.settled_append first.settled).balance op.asksForMore_kind
    refine ⟨_, hp₂.trans hpts, ?_, he⟩
    simpa using hbegun

theorem suspends_term {product : Rule Expr} (h : product.Suspends depth) :
    (term product).Suspends depth := by
  intro c c' e hwf hd hrun hend
  by_cases hk : c.current.kind = .minus
  · have hc := hwf.rest_eq_unary (o := .negate) hk
    rw [term_of_minus hc] at hrun
    rcases bind_eq_error.mp hrun with h₁ | ⟨_, _, _, h₁⟩
    · obtain ⟨ts, hp, hts, he⟩ := h (hwf.of_rest hc) hd h₁ hend
      exact ⟨_, (Cursor.passes_advanced hc).trans hp, hts.cons rfl, he⟩
    · cases h₁
  · rw [term_of_ne hk] at hrun
    exact h hwf hd hrun hend

theorem suspends_comparison {sum : Rule Expr} (hsum : sum.Derives depth (.chain .sum) room)
    (h : sum.Suspends depth) : (comparison sum).Suspends depth := by
  intro c c' e hwf hd hrun hend
  rcases bind_eq_error.mp hrun with h₁ | ⟨left, c₁, h₁, -⟩
  · exact h hwf hd h₁ hend
  · obtain ⟨l, rfl, hl⟩ := hsum hwf hd h₁
    by_cases hk : c₁.current.kind = .equals
    · have hwf₁ := hwf.of_passes hl.passes
      have hc₁ := hwf₁.rest_eq_binary (o := .equals) hk
      rw [comparison_of_equals h₁ hc₁] at hrun
      rcases bind_eq_error.mp hrun with h₂ | ⟨_, _, _, h₂⟩
      · obtain ⟨ts, hp, hts, he⟩ := h (hwf₁.of_rest hc₁) (hl.passes.depth.trans hd) h₂ hend
        exact ⟨_, hl.passes.trans ((Cursor.passes_advanced hc₁).trans hp),
          hts.append l.settled.balance rfl, he⟩
      · cases h₂
    · rw [comparison_of_ne h₁ hk] at hrun
      cases hrun

theorem suspends_primary {inside operand : Rule Expr}
    (hinside : inside.Derives depth .expression room) (h : inside.Suspends depth)
    (hoperand : operand.Suspends depth) : (primary inside operand).Suspends depth := by
  intro c c' e hwf hd hrun hend
  rcases hwf.front_of_power with ⟨id, hc⟩ | ⟨m, hc⟩ | hc | ⟨f, hf, hc⟩ | hk
  · rw [primary_of_name hc] at hrun
    cases hrun
  · rw [primary_of_number hc] at hrun
    cases hrun
  · rw [primary_of_opening hc] at hrun
    have hp := Cursor.passes_advanced hc
    rcases bind_eq_error.mp hrun with h₁ | ⟨a, c₁, h₁, htake⟩
    · obtain ⟨ts, hpts, hts, he⟩ := h (hwf.of_rest hc) hd h₁ hend
      exact ⟨_, hp.trans hpts, hts.cons rfl, he⟩
    · rcases bind_eq_error.mp htake with h₂ | ⟨_, _, _, h₂⟩
      · obtain ⟨p, rfl, hp₁⟩ := hinside (hwf.of_rest hc) hd h₁
        obtain ⟨-, rfl, rfl⟩ := take_eq_error.mp h₂
        have hopen : openParens ([.opening c.current.place] ++ p.yield) = 1 := by
          rw [openParens_append, p.settled.openParens_eq]
          rfl
        exact ⟨_, hp.trans hp₁.passes, ⟨by omega, .inr (.inl (by omega))⟩,
          Token.not_missesSign_refusal _ (by decide)⟩
      · cases h₂
  · rw [primary_of_function hf hc] at hrun
    rcases bind_eq_error.mp hrun with h₁ | ⟨_, _, _, h₁⟩
    · obtain ⟨ts, hpts, hts, he⟩ := hoperand (hwf.of_rest hc) hd h₁ hend
      exact ⟨_, (Cursor.passes_advanced hc).trans hpts, hts.cons f.asksForMore_kind, he⟩
    · cases h₁
  · rw [primary_of_not_mem hk] at hrun
    cases hrun
    exact ⟨[], .refl c, begun_nil, Token.not_missesSign_refusal _ (by decide)⟩

theorem suspends_raised {inside inner : Rule Expr} (hinside : inside.Derives depth .expression room)
    (hinner : inner.Derives depth .power room) (h : inside.Suspends depth)
    (h' : inner.Suspends depth) : (raised (primary inside inner) inner).Suspends depth := by
  intro c c' e hwf hd hrun hend
  rcases bind_eq_error.mp hrun with h₁ | ⟨base, c₁, h₁, -⟩
  · exact suspends_primary hinside h h' hwf hd h₁ hend
  · by_cases hk : c₁.current.kind = .power
    · rcases derives_primary hinside hinner hwf hd h₁ with ⟨b, rfl, hb⟩ | ⟨f, hf, p, e, rfl, he⟩
      · have hwf₁ := hwf.of_passes hb.passes
        have hc₁ := hwf₁.rest_eq_binary (o := .power) hk
        rw [raised_of_power h₁ hc₁] at hrun
        rcases bind_eq_error.mp hrun with h₂ | ⟨_, _, _, h₂⟩
        · obtain ⟨ts, hp, hts, he⟩ := h' (hwf₁.of_rest hc₁) (hb.passes.depth.trans hd) h₂ hend
          exact ⟨_, hb.passes.trans ((Cursor.passes_advanced hc₁).trans hp),
            hts.append b.settled.balance rfl, he⟩
        · cases h₂
      · rw [c₁.kind_current] at hk
        exact absurd (List.mem_singleton.mpr hk) he.stops
    · rw [raised_of_ne h₁ hk] at hrun
      cases hrun

theorem suspends_nested {r : Rule Expr} (h : r.Suspends (depth + 1)) :
    (nested r).Suspends depth := by
  intro c c' e hwf hd hrun hend
  obtain ⟨c₁, h₁, rfl⟩ := nested_eq_error.mp hrun
  obtain ⟨ts, hp, hts, he⟩ := h (c := { c with depth := c.depth + 1 }) hwf (by rw [hd]) h₁ hend
  exact ⟨ts, hp.of_deeper, hts, he⟩

theorem suspends_expressionOver {power : Rule Expr} (hpower : power.Derives depth .power room)
    (h : power.Suspends depth) : (expressionOver power).Suspends depth := by
  have hproduct := derives_chain (t := .product) hpower
  have hterm := derives_term hproduct
  exact suspends_comparison (derives_chain (t := .sum) hterm) (suspends_chain (t := .sum) hterm
    (suspends_term (suspends_chain (t := .product) hpower h)))

theorem suspends_powerWithin (room : Nat) : ∀ depth : Nat, (powerWithin room).Suspends depth := by
  induction room with
  | zero =>
    intro depth c c' e _ _ hrun hend
    rw [powerWithin, tooDeep] at hrun
    split_ifs at hrun <;> cases hrun
    · exact ⟨[], .refl c, begun_nil, Token.not_missesSign_refusal _ (by decide)⟩
    · refine ⟨[], .refl c, begun_nil, ?_⟩
      rintro ⟨_, _, h⟩
      cases h
  | succ room ih =>
    intro depth
    have hinner := derives_powerWithin room (depth + 1)
    exact suspends_nested (suspends_raised (derives_expressionOver hinner) hinner
      (suspends_expressionOver hinner (ih _)) (ih _))

theorem suspends_power (limit depth : Nat) : (power limit).Suspends depth := by
  intro c c' e hwf hd hrun hend
  rw [power, hd] at hrun
  exact suspends_powerWithin _ _ hwf hd hrun hend

theorem suspends_expression (limit : Nat) : (expression limit).Suspends 0 :=
  suspends_expressionOver (derives_power limit 0) (suspends_power limit 0)

/-! ### Where the text ends in a statement -/

section Statements

variable {expr : Rule Expr}

/-- What has been passed of a statement where the text ends is unfinished, unless the sign of an
assignment is missing. -/
def CutShort (ts : List Token) (e : Fault) : Prop :=
  ¬ e.MissesSign ∧ Unfinished ts ∨ e.MissesSign ∧ Settled ts

theorem CutShort.append {ts us : List Token} {e : Fault} (h : CutShort ts e)
    (hus : openParens us = 0) : CutShort (us ++ ts) e := by
  rcases h with ⟨he, h⟩ | ⟨he, h⟩
  · exact .inl ⟨he, h.append (Int.le_of_eq hus.symm)⟩
  · exact .inr ⟨he, h.append hus⟩

/-- Behind a name the text ends before the sign or in the expression. -/
theorem assigned_cutShort (h : expr.Suspends depth) {f : Expr → Statement} {c c' : Cursor}
    {e : Fault} (hwf : c.WellFormed) (hd : c.depth = depth) (hrun : assigned expr f c = .error e c')
    (hend : c'.current.kind = .finish) {us : List Token} (hus : Settled us) :
    ∃ ts, c.Passes ts c' ∧ CutShort (us ++ ts) e := by
  rcases bind_eq_error.mp hrun with h₁ | ⟨_, c₁, h₁, hrun⟩
  · obtain ⟨-, rfl, rfl⟩ := take_eq_error.mp h₁
    refine ⟨[], .refl c', .inr ⟨⟨c'.current, c'.current.place, ?_⟩, by simpa using hus⟩⟩
    rw [Token.refusal, if_neg (by rw [hend]; decide)]
  · obtain ⟨hsign, -, rfl⟩ := take_eq_ok.mp h₁
    have hc := hwf.rest_eq_mk hsign rfl
    rcases bind_eq_error.mp hrun with h₂ | ⟨_, _, _, h₂⟩
    · obtain ⟨ts, hp, hts, he⟩ := h (hwf.of_rest hc) hd h₂ hend
      exact ⟨_, (Cursor.passes_advanced hc).trans hp,
        .inl ⟨he, hts.unfinished_append hus.balance rfl⟩⟩
    · cases h₂

theorem statement_cutShort (h : expr.Suspends depth) {c c' : Cursor} {e : Fault}
    (hwf : c.WellFormed) (hd : c.depth = depth) (hrun : statement expr c = .error e c')
    (hbegin : c.current.kind ≠ .finish) (hend : c'.current.kind = .finish) :
    ∃ ts, c.Passes ts c' ∧ CutShort ts e := by
  rcases hwf.front_of_statement with hc | ⟨id, hc⟩ | hc | hk
  · rw [statement_of_declaring hc] at hrun
    have hwf₁ := hwf.of_rest hc
    rcases bind_eq_error.mp hrun with h₁ | ⟨name, c₁, h₁, hrun⟩
    · obtain ⟨-, rfl, rfl⟩ := take_eq_error.mp h₁
      exact ⟨_, Cursor.passes_advanced hc, .inl ⟨Token.not_missesSign_refusal _ (by decide),
        begun_nil.unfinished_cons rfl⟩⟩
    · obtain ⟨hname, -, rfl⟩ := take_eq_ok.mp h₁
      obtain ⟨id, hc₁⟩ := Cursor.exists_name hname
      have hname : Settled [.declaring c.current.place, id.token] := ⟨rfl, [_], id.token, rfl, rfl⟩
      obtain ⟨ts, hp, hts⟩ := assigned_cutShort h (hwf₁.of_rest hc₁) hd hrun hend hname
      exact ⟨_, ((Cursor.passes_advanced hc).trans (Cursor.passes_advanced hc₁)).trans hp, hts⟩
  · rw [statement_of_name hc] at hrun
    have hname : Settled [id.token] := ⟨rfl, [], id.token, rfl, rfl⟩
    obtain ⟨ts, hp, hts⟩ := assigned_cutShort h (hwf.of_rest hc) hd hrun hend hname
    exact ⟨_, (Cursor.passes_advanced hc).trans hp, hts⟩
  · rw [statement_of_printing hc] at hrun
    rcases bind_eq_error.mp hrun with h₁ | ⟨_, _, _, h₁⟩
    · obtain ⟨ts, hp, hts, he⟩ := h (hwf.of_rest hc) hd h₁ hend
      exact ⟨_, (Cursor.passes_advanced hc).trans hp,
        .inl ⟨he, hts.unfinished_cons rfl⟩⟩
    · cases h₁
  · rw [statement_of_not_mem hk] at hrun
    cases hrun
    exact absurd hend hbegin

theorem program_cutShort (hderives : expr.Derives depth .expression room) (h : expr.Suspends depth)
    {c c' : Cursor} {e : Fault} (hwf : c.WellFormed) (hd : c.depth = depth)
    (hrun : program (statement expr) c = .error e c') (hbegin : c.current.kind ≠ .finish)
    (hend : c'.current.kind = .finish) : ∃ ts, c.Passes ts c' ∧ CutShort ts e := by
  rw [program_eq] at hrun
  rcases bind_eq_error.mp hrun with h₁ | ⟨a, c₁, h₁, hrun⟩
  · exact statement_cutShort h hwf hd h₁ hbegin hend
  · obtain ⟨first, -, -, hp, -⟩ := statement_derives hderives hwf hd h₁
    rw [remaining_bind] at hrun
    rcases bind_eq_error.mp hrun with h₂ | ⟨_, _, _, h₂⟩
    · obtain ⟨ss, c₂, -, hps, -, hne, h₃⟩ := statementsWithin_error hderives _ (hwf.of_passes hp)
        (hp.depth.trans hd) h₂
      have hp₂ := hp.trans hps
      obtain ⟨ts, hpts, hts⟩ := statement_cutShort h (hwf.of_passes hp₂) (hp₂.depth.trans hd) h₃ hne
        hend
      refine ⟨_, hp₂.trans hpts, hts.append ?_⟩
      rw [openParens_append, first.settled.openParens_eq, openParens_clauses]
      rfl
    · cases h₂

end Statements

end Rule

/-! ### Entries -/

theorem bodyOf_append_finish {ts : List Token} (hts : ∀ t ∈ ts, t.kind ≠ .finish) (p : Place) :
    bodyOf (ts ++ [.finish p]) = ts := by
  have hself : ts.filter (fun t => t.kind ≠ .finish) = ts :=
    List.filter_eq_self.mpr fun t ht => decide_eq_true (hts t ht)
  rw [bodyOf, List.filter_append, hself]
  simp [Token.finish]

theorem needsMore_eq_true_iff {ts : List Token} (hts : ∀ t ∈ ts, t.OfLexeme) (p : Place) :
    needsMore (ts ++ [.finish p]) = true ↔ Unfinished ts := by
  have hclean : ts.any (fun t => t.kind = .unknown) = false :=
    List.any_eq_false.mpr fun t ht => by simpa using (hts t ht).1
  rw [needsMore, bodyOf_append_finish fun t ht => (hts t ht).2]
  rw [hclean, if_neg (by decide)]
  rcases List.eq_nil_or_concat ts with rfl | ⟨us, t, rfl⟩
  · constructor
    · intro h; cases h
    · rintro (h | ⟨us, t, h, -⟩)
      · cases h
      · simp at h
  · rw [List.concat_eq_append, List.getLast?_concat]
    show (decide _ || _) = true ↔ _
    rw [Bool.or_eq_true, decide_eq_true_eq]
    refine or_congr_right ⟨fun h => ⟨us, t, rfl, h⟩, ?_⟩
    rintro ⟨us', t', heq, h⟩
    obtain ⟨-, hlast⟩ := List.append_inj' heq rfl
    obtain ⟨rfl, -⟩ := List.cons.inj hlast
    exact h

/-- Without the end of the text, the tokens of a clean text are those of lexemes. -/
theorem exists_lexemes {source : String} (hclean : ∀ t ∈ tokensOf source, t.kind ≠ .unknown) :
    ∃ ts p, tokensOf source = ts ++ [.finish p] ∧ ∀ t ∈ ts, t.OfLexeme := by
  obtain ⟨ts, p, hts, hfinish⟩ := tokensOf_eq_append_finish source
  refine ⟨ts, p, hts, fun t ht => ⟨hclean t ?_, hfinish t ht⟩⟩
  rw [hts]
  exact List.mem_append_left _ ht

namespace Program

variable {source : String} {ts : List Token} {p : Place}

/-- The lexemes of a program are settled. -/
theorem settled_of_ofText {program : Program} (hts : tokensOf source = ts ++ [.finish p])
    (hlexemes : ∀ t ∈ ts, t.OfLexeme) (h : ofText source = .ok program) : Settled ts := by
  obtain ⟨d, rest, -, -, hsource, hrest⟩ := Derivation.of_accepted
    (fun _ ht => wellFormed_of_mem_tokensOf ht) h
  rw [hts] at hsource
  obtain rfl := yield_eq_of_append_eq (fun t ht => (hlexemes t ht).2)
    (fun t ht => (d.proper t ht).kind_ne_finish) rfl hrest hsource
  exact d.settled

/-- The lexemes of a text that is refused at its end are cut short. -/
theorem cutShort_of_ofText {reason : Refusal} {t : Token}
    (hts : tokensOf source = ts ++ [.finish p]) (hlexemes : ∀ u ∈ ts, u.OfLexeme) (hne : ts ≠ [])
    (ht : t ∈ tokensOf source) (hk : t.kind = .finish)
    (h : ofText source = .error (.refused reason t.place)) :
    Rule.CutShort ts (.refused reason t.place) := by
  obtain ⟨before, after, hsource, hstop, hbefore⟩ := stop_of_place ht h
  rw [ofText, ofTokens, ofTokensWithin] at h
  rw [stop] at hstop
  split at h
  · cases h
  next e c' hprogram =>
  cases h
  rw [hprogram] at hstop
  have hstop : c'.rest = t :: after := hstop
  have hbegin : (Cursor.ofTokens (tokensOf source)).current.kind ≠ .finish := by
    obtain ⟨u, us, rfl⟩ := List.exists_cons_of_ne_nil hne
    rw [Cursor.current_eq (t := u) hts]
    exact (hlexemes u List.mem_cons_self).2
  have hend : c'.current.kind = .finish := by rw [Cursor.current_eq hstop, hk]
  have hwf : ∀ u ∈ tokensOf source, u.WellFormed := fun _ hu => wellFormed_of_mem_tokensOf hu
  obtain ⟨us, hp, hcut⟩ := Rule.program_cutShort (Rule.derives_expression nestingLimit)
    (Rule.suspends_expression nestingLimit) (c := .ofTokens (tokensOf source)) hwf rfl hprogram
    hbegin hend
  -- what has been passed is all of the text
  obtain rfl : us = before := by
    have hpassed : tokensOf source = us ++ c'.rest := hp.rest
    rw [hstop, hsource] at hpassed
    exact (List.append_cancel_right hpassed).symm
  have hlast : headKind (t :: after) = .finish := hk
  rw [hts] at hsource
  obtain rfl := yield_eq_of_append_eq (fun u hu => (hlexemes u hu).2)
    (fun u hu => (hbefore u hu).2) rfl hlast hsource
  exact hcut

end Program

/-- **A session and the grammar agree on what is cut short.** Let every character of a text belong
to a lexeme, and let there be at least one lexeme. If the text is a program, no more is needed of
it. If it is refused at its end, more is needed unless the sign of an assignment is missing there.
-/
theorem needsMore_tokensOf (source : String) (hclean : ∀ t ∈ tokensOf source, t.kind ≠ .unknown)
    (hne : bodyOf (tokensOf source) ≠ []) :
    (∀ p, Program.ofText source = .ok p → needsMore (tokensOf source) = false) ∧
    ∀ reason, ∀ t ∈ tokensOf source, t.kind = .finish →
      Program.ofText source = .error (.refused reason t.place) →
        (needsMore (tokensOf source) = true ↔
          ¬ (Fault.refused reason t.place).MissesSign) := by
  obtain ⟨us, q, hus, hlexemes⟩ := exists_lexemes hclean
  have hmore : needsMore (tokensOf source) = true ↔ Unfinished us := by
    rw [hus]
    exact needsMore_eq_true_iff hlexemes q
  refine ⟨fun p hp => ?_, fun reason t ht hk hrun => ?_⟩
  · rw [← Bool.not_eq_true, hmore]
    exact (Program.settled_of_ofText hus hlexemes hp).not_unfinished
  · rw [hus, bodyOf_append_finish fun t ht => (hlexemes t ht).2] at hne
    rw [hmore]
    rcases Program.cutShort_of_ofText hus hlexemes hne ht hk hrun with ⟨he, hts⟩ | ⟨he, hts⟩
    · exact ⟨fun _ => he, fun _ => hts⟩
    · exact ⟨fun h => absurd h hts.not_unfinished, fun h => absurd he h⟩

/-- At an open parenthesis more is needed. -/
theorem needsMore_of_open_group : needsMore (tokensOf "print (x") = true := by
  have h := (needsMore_tokensOf "print (x" (by decide +kernel) (by decide +kernel)).2
    (.expected "')'" (.finish ⟨1, 9⟩)) (.finish ⟨1, 9⟩) (by decide +kernel) rfl (by decide +kernel)
  have hparen : "')'" ≠ "'='" := by decide
  rw [h]
  exact (Token.finish ⟨1, 9⟩).not_missesSign_refusal hparen

end AelSyntax
