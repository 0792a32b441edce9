import AelSyntax.Proofs.Grammar.Location
import Mathlib.Data.List.Forall2
import Mathlib.Tactic.Common

/-! # Where nodes begin

An expression is read from tokens in the way its tree says: a literal and a name from their own
token, an operator from its token and the tokens of its operands, and any expression once more in
parentheses (`Expr.ReadFrom`). Without the parentheses around it, it is built from them
(`Expr.BuiltFrom`). The place of a node is that of the first token it is read from that opens no
parenthesis (`Expr.ReadFrom.exists_leading`), and the nodes inside it are built from some of its
tokens in a row (`Expr.ReadFrom.exists_builtFrom`). So the order of the tokens of a text is that of
its nodes.

* `Program.places_of_nodes`: where the nodes of a text begin, and in which order. -/

namespace AelSyntax

/-! ### First tokens -/

/-- The first token that opens no parenthesis. -/
def leading? (ts : List Token) : Option Token := ts.find? fun t => t.kind ≠ .openParen

section Leading

variable {t : Token} {ts us : List Token}

theorem leading?_cons_of_ne (h : t.kind ≠ .openParen) : leading? (t :: ts) = some t :=
  List.find?_cons_of_pos (decide_eq_true h)

theorem leading?_opening (p : Place) : leading? (.opening p :: ts) = leading? ts :=
  List.find?_cons_of_neg (by simp [Token.opening])

theorem leading?_append (h : leading? us = some t) (ts : List Token) :
    leading? (us ++ ts) = some t := by
  rw [leading?] at h ⊢
  rw [List.find?_append, h, Option.some_or]

theorem mem_of_leading? (h : leading? ts = some t) : t ∈ ts := List.mem_of_find?_eq_some h

theorem infix_behind (us : List Token) (t : Token) (ts : List Token) : ts <:+: us ++ t :: ts :=
  ⟨us ++ [t], [], by simp⟩

end Leading

theorem UnaryOp.kind_ne_openParen (o : UnaryOp) : o.kind ≠ .openParen := by
  cases o <;> decide

/-! ### What nodes are read from -/

/-- An expression is read from tokens, with any parentheses around it and inside it. -/
inductive Expr.ReadFrom : List Token → Expr → Prop
  | literal (n : Number) (p : Place) : ReadFrom [n.token p] (.literal n.value p)
  | name (id : Identifier) : ReadFrom [id.token] (.name id)
  | unary (op : UnaryOp) (p : Place) {us : List Token} {e : Expr} (h : ReadFrom us e) :
    ReadFrom (op.token p :: us) (.unary op e p)
  | binary (op : BinaryOp) (p : Place) {us vs : List Token} {l r : Expr} (hl : ReadFrom us l)
    (hr : ReadFrom vs r) : ReadFrom (us ++ op.token p :: vs) (.binary op l r l.place)
  | group (p q : Place) {us : List Token} {e : Expr} (h : ReadFrom us e) :
    ReadFrom (.opening p :: (us ++ [.closing q])) e

/-- An expression is built from tokens, without parentheses around it. -/
def Expr.BuiltFrom (ts : List Token) : Expr → Prop
  | .literal v p => ∃ n : Number, v = n.value ∧ ts = [n.token p]
  | .name id => ts = [id.token]
  | .unary op e p => ∃ us, ts = op.token p :: us ∧ e.ReadFrom us
  | .binary op l r p =>
    p = l.place ∧ ∃ us q vs, ts = us ++ op.token q :: vs ∧ l.ReadFrom us ∧ r.ReadFrom vs

/-- A statement is built from tokens. -/
def Statement.BuiltFrom (ts : List Token) : Statement → Prop
  | .declaration s e p => ∃ (name : Identifier) (q : Place) (us : List Token),
    s = name.name ∧ ts = .declaring p :: name.token :: .assigning q :: us ∧ e.ReadFrom us
  | .assignment id e p => p = id.place ∧ ∃ (q : Place) (us : List Token),
    ts = id.token :: .assigning q :: us ∧ e.ReadFrom us
  | .print e p => ∃ us, ts = .printing p :: us ∧ e.ReadFrom us

/-- A program is built from tokens: from those of its statements one after the other. It begins
where they begin. -/
def Program.BuiltFrom (ts : List Token) (p : Program) : Prop :=
  ts.head?.map Token.place = some p.place ∧
    ∃ uss, ts = uss.flatten ∧ List.Forall₂ Statement.BuiltFrom uss p.statements

/-- A node is built from tokens. -/
def Node.BuiltFrom (ts : List Token) : Node → Prop
  | .program p => p.BuiltFrom ts
  | .statement s => s.BuiltFrom ts
  | .expr e => e.BuiltFrom ts

/-! ### Expressions -/

namespace Expr

variable {ts us vs : List Token} {e l r : Expr}

theorem BuiltFrom.readFrom (h : e.BuiltFrom ts) : e.ReadFrom ts := by
  cases e with
  | literal v p =>
    obtain ⟨n, rfl, rfl⟩ := h
    exact .literal n p
  | name id =>
    obtain rfl : ts = [id.token] := h
    exact .name id
  | unary op e p =>
    obtain ⟨us, rfl, he⟩ := h
    exact .unary op p he
  | binary op l r p =>
    obtain ⟨rfl, us, q, vs, rfl, hl, hr⟩ := h
    exact .binary op q hl hr

/-- **An expression begins where its tokens do**, but for opening parentheses. -/
theorem ReadFrom.exists_leading (h : e.ReadFrom ts) :
    ∃ t, leading? ts = some t ∧ t.place = e.place := by
  induction h with
  | literal n p => exact ⟨_, leading?_cons_of_ne Kind.noConfusion, rfl⟩
  | name id => exact ⟨_, leading?_cons_of_ne Kind.noConfusion, rfl⟩
  | unary op p _ _ => exact ⟨_, leading?_cons_of_ne op.kind_ne_openParen, rfl⟩
  | binary op p _ _ ihl _ =>
    obtain ⟨t, ht, hplace⟩ := ihl
    exact ⟨t, leading?_append ht _, hplace⟩
  | group p q _ ih =>
    obtain ⟨t, ht, hplace⟩ := ih
    exact ⟨t, by rw [leading?_opening, leading?_append ht], hplace⟩

/-- Every expression inside another one is built from some of its tokens in a row. -/
theorem ReadFrom.exists_builtFrom (h : e.ReadFrom ts) :
    ∀ e' ∈ e.walk, ∃ us, us <:+: ts ∧ e'.BuiltFrom us := by
  induction h with
  | literal n p =>
    intro e' he'
    obtain rfl := List.mem_singleton.mp he'
    exact ⟨_, List.infix_rfl, n, rfl, rfl⟩
  | name id =>
    intro e' he'
    obtain rfl := List.mem_singleton.mp he'
    exact ⟨_, List.infix_rfl, rfl⟩
  | unary op p h ih =>
    intro e' he'
    rcases List.mem_cons.mp he' with rfl | he'
    · exact ⟨_, List.infix_rfl, _, rfl, h⟩
    · obtain ⟨us, hus, hbuilt⟩ := ih e' he'
      exact ⟨us, hus.trans (List.suffix_cons _ _).isInfix, hbuilt⟩
  | binary op p hl hr ihl ihr =>
    intro e' he'
    rcases List.mem_cons.mp he' with rfl | he'
    · exact ⟨_, List.infix_rfl, rfl, _, p, _, rfl, hl, hr⟩
    · rcases List.mem_append.mp he' with he' | he'
      · obtain ⟨us, hus, hbuilt⟩ := ihl e' he'
        exact ⟨us, hus.trans (List.prefix_append _ _).isInfix, hbuilt⟩
      · obtain ⟨us, hus, hbuilt⟩ := ihr e' he'
        exact ⟨us, hus.trans (infix_behind _ _ _), hbuilt⟩
  | group p q h ih =>
    intro e' he'
    obtain ⟨us, hus, hbuilt⟩ := ih e' he'
    exact ⟨us, hus.trans ((List.prefix_append _ _).isInfix.trans (List.suffix_cons _ _).isInfix),
      hbuilt⟩

end Expr

/-! ### Derivations -/

mutual

theorem Phrase.readFrom : ∀ {s : Symbol} (p : Phrase s), p.tree.ReadFrom p.yield
  | _, .plain s => s.readFrom
  | _, .compared l p r => .binary .equals p l.readFrom r.readFrom
  | _, .chain first more => more.readFrom first.readFrom
  | _, .bare f => f.readFrom
  | _, .negated p f => .unary .negate p f.readFrom
  | _, .alone b => b.readFrom
  | _, .raised b p e => .binary .power p b.readFrom e.readFrom
  | _, .applied f _ p e => .unary f p e.readFrom
  | _, .name id => .name id
  | _, .number n p => .literal n p
  | _, .group p e q => .group p q e.readFrom

/-- Behind an operand, links are read as one operator after the other. -/
theorem Links.readFrom : ∀ {t : Tier} (m : Links t) {us : List Token} {left : Expr},
    left.ReadFrom us → (m.onto left).ReadFrom (us ++ m.yield)
  | _, .done, us, _, h => by
    rw [Links.yield, List.append_nil]
    exact h
  | _, .link op _ p e more, us, _, h => by
    have hmore := more.readFrom (.binary op p h e.readFrom)
    rw [List.append_assoc, List.cons_append] at hmore
    exact hmore

end

theorem Clause.builtFrom (s : Clause) : s.tree.BuiltFrom s.yield := by
  cases s with
  | declaration p name q e => exact ⟨name, q, e.yield, rfl, rfl, e.readFrom⟩
  | assignment target q e => exact ⟨rfl, q, e.yield, rfl, e.readFrom⟩
  | print p e => exact ⟨e.yield, rfl, e.readFrom⟩

theorem Derivation.builtFrom (d : Derivation) : d.tree.BuiltFrom d.yield := by
  refine ⟨?_, d.clauses.map Clause.yield, rfl, ?_⟩
  · obtain ⟨first, more⟩ := d
    cases first <;> rfl
  · show List.Forall₂ _ (d.clauses.map Clause.yield) (d.clauses.map Clause.tree)
    rw [List.forall₂_map_left_iff, List.forall₂_map_right_iff, List.forall₂_same]
    exact fun s _ => s.builtFrom

/-! ### Statements and programs -/

namespace Statement.BuiltFrom

variable {ts : List Token} {s : Statement}

/-- A statement begins with its first token, which is no parenthesis. -/
theorem exists_cons (h : s.BuiltFrom ts) :
    ∃ t us, ts = t :: us ∧ t.kind ≠ .openParen ∧ t.place = s.place := by
  cases s with
  | declaration name e p =>
    obtain ⟨id, q, us, -, rfl, -⟩ := h
    exact ⟨_, _, rfl, Kind.noConfusion, rfl⟩
  | assignment id e p =>
    obtain ⟨rfl, q, us, rfl, -⟩ := h
    exact ⟨_, _, rfl, Kind.noConfusion, rfl⟩
  | print e p =>
    obtain ⟨us, rfl, -⟩ := h
    exact ⟨_, _, rfl, Kind.noConfusion, rfl⟩

theorem exists_readFrom (h : s.BuiltFrom ts) :
    ∀ e ∈ s.expressions, ∃ us, us <:+: ts ∧ e.ReadFrom us := by
  intro e' he'
  cases s with
  | declaration name e p =>
    obtain ⟨id, q, us, -, rfl, he⟩ := h
    obtain rfl := List.mem_singleton.mp he'
    exact ⟨us, ⟨[_, _, _], [], List.append_nil _⟩, he⟩
  | assignment id e p =>
    obtain ⟨-, q, us, rfl, he⟩ := h
    rcases List.mem_cons.mp he' with rfl | he'
    · exact ⟨[id.token], ⟨[], _, rfl⟩, .name id⟩
    · obtain rfl := List.mem_singleton.mp he'
      exact ⟨us, ⟨[_, _], [], List.append_nil _⟩, he⟩
  | print e p =>
    obtain ⟨us, rfl, he⟩ := h
    obtain rfl := List.mem_singleton.mp he'
    exact ⟨us, (List.suffix_cons _ _).isInfix, he⟩

/-- Every node of a statement is built from some of its tokens in a row. -/
theorem exists_builtFrom (h : s.BuiltFrom ts) :
    ∀ n ∈ Node.ofStatement s, ∃ us, us <:+: ts ∧ n.BuiltFrom us := by
  intro n hn
  rcases List.mem_cons.mp hn with rfl | hn
  · exact ⟨ts, List.infix_rfl, h⟩
  · obtain ⟨e', he', rfl⟩ := List.mem_map.mp hn
    obtain ⟨e, he, hwalk⟩ := List.mem_flatMap.mp he'
    obtain ⟨us, hus, hread⟩ := h.exists_readFrom e he
    obtain ⟨vs, hvs, hbuilt⟩ := hread.exists_builtFrom e' hwalk
    exact ⟨vs, hvs.trans hus, hbuilt⟩

end Statement.BuiltFrom

/-- Every node of some statements is built from some of their tokens in a row. -/
theorem exists_builtFrom_of_statements {uss : List (List Token)} {ss : List Statement}
    (h : List.Forall₂ Statement.BuiltFrom uss ss) :
    ∀ n ∈ ss.flatMap Node.ofStatement, ∃ us, us <:+: uss.flatten ∧ n.BuiltFrom us := by
  induction h with
  | nil => exact fun n hn => absurd hn List.not_mem_nil
  | cons hs _ ih =>
    intro n hn
    rw [List.flatMap_cons, List.mem_append] at hn
    rw [List.flatten_cons]
    rcases hn with hn | hn
    · obtain ⟨us, hus, hbuilt⟩ := hs.exists_builtFrom n hn
      exact ⟨us, hus.trans (List.prefix_append _ _).isInfix, hbuilt⟩
    · obtain ⟨us, hus, hbuilt⟩ := ih n hn
      exact ⟨us, hus.trans (List.suffix_append _ _).isInfix, hbuilt⟩

namespace Node

variable {ts : List Token} {p : Program}

/-- **A node begins where its tokens do**, but for opening parentheses. -/
theorem BuiltFrom.exists_leading {n : Node} (h : n.BuiltFrom ts) :
    ∃ t, leading? ts = some t ∧ t.place = n.place := by
  cases n with
  | program p =>
    obtain ⟨hplace, uss, rfl, hss⟩ := h
    generalize p.statements = ss at hss
    cases hss with
    | nil => cases hplace
    | cons hs _ =>
      obtain ⟨t, us, rfl, hk, -⟩ := hs.exists_cons
      exact ⟨t, leading?_cons_of_ne hk, Option.some.inj hplace⟩
  | statement s =>
    obtain ⟨t, us, rfl, hk, hplace⟩ := Statement.BuiltFrom.exists_cons h
    exact ⟨t, leading?_cons_of_ne hk, hplace⟩
  | expr e => exact (Expr.BuiltFrom.readFrom h).exists_leading

theorem BuiltFrom.exists_place_eq {n : Node} (h : n.BuiltFrom ts) :
    ∃ t ∈ ts, t.place = n.place := by
  obtain ⟨t, ht, hplace⟩ := h.exists_leading
  exact ⟨t, mem_of_leading? ht, hplace⟩

/-- Every node of a program is built from some of its tokens in a row. -/
theorem exists_builtFrom (h : p.BuiltFrom ts) :
    ∀ n ∈ (program p).walk, ∃ us, us <:+: ts ∧ n.BuiltFrom us := by
  intro n hn
  rcases List.mem_cons.mp hn with rfl | hn
  · exact ⟨ts, List.infix_rfl, h⟩
  · obtain ⟨-, uss, rfl, hss⟩ := h
    exact exists_builtFrom_of_statements hss n hn

end Node

/-! ### Order -/

/-- A place is another one or comes before it. -/
def Place.NotAfter (p q : Place) : Prop := p = q ∨ p.Before q

theorem Place.NotAfter.refl (p : Place) : p.NotAfter p := .inl rfl

/-- The places of tokens increase. -/
abbrev Increasing (ts : List Token) : Prop := ts.Pairwise fun t t' => t.place.Before t'.place

section Order

variable {t : Token} {ts us vs : List Token} {e l r : Expr} {s : Statement}

theorem Increasing.of_infix (h : Increasing ts) (hus : us <:+: ts) : Increasing us :=
  List.Pairwise.sublist hus.sublist h

/-- No token comes before the first one. -/
theorem Increasing.head_notAfter (h : Increasing (t :: ts)) :
    ∀ u ∈ t :: ts, t.place.NotAfter u.place := by
  intro u hu
  rcases List.mem_cons.mp hu with rfl | hu
  · exact .refl _
  · exact .inr (List.rel_of_pairwise_cons h hu)

namespace Expr

theorem walk_eq_cons (e : Expr) : ∃ es, e.walk = e :: es := by
  cases e <;> exact ⟨_, rfl⟩

theorem mem_walk_self (e : Expr) : e ∈ e.walk := by
  obtain ⟨es, hes⟩ := e.walk_eq_cons
  rw [hes]
  exact List.mem_cons_self

theorem ReadFrom.exists_place_eq (h : e.ReadFrom ts) :
    ∀ e' ∈ e.walk, ∃ t ∈ ts, t.place = e'.place := by
  intro e' he'
  obtain ⟨us, hus, hbuilt⟩ := h.exists_builtFrom e' he'
  obtain ⟨t, ht, hplace⟩ := Node.BuiltFrom.exists_place_eq (n := .expr e') hbuilt
  exact ⟨t, hus.subset ht, hplace⟩

/-- The expressions on the left of an operator begin before those on its right. -/
theorem before_of_binary (hts : Increasing (us ++ t :: vs)) (hl : l.ReadFrom us)
    (hr : r.ReadFrom vs) : ∀ a ∈ l.walk, ∀ b ∈ r.walk, a.place.Before b.place := by
  intro a ha b hb
  obtain ⟨u, hu, hua⟩ := hl.exists_place_eq a ha
  obtain ⟨v, hv, hvb⟩ := hr.exists_place_eq b hb
  rw [← hua, ← hvb]
  exact (List.pairwise_append.mp hts).2.2 u hu v (List.mem_cons_of_mem _ hv)

/-- **The expressions inside another one begin one after the other**, if its tokens do. -/
theorem ReadFrom.walk_pairwise (h : e.ReadFrom ts) :
    Increasing ts → e.walk.Pairwise fun a b => a.place.NotAfter b.place := by
  induction h with
  | literal n p => exact fun _ => List.pairwise_singleton _ _
  | name id => exact fun _ => List.pairwise_singleton _ _
  | unary op p h ih =>
    intro hts
    refine List.pairwise_cons.mpr ⟨fun e' he' => ?_, ih hts.of_cons⟩
    obtain ⟨u, hu, hplace⟩ := h.exists_place_eq e' he'
    rw [← hplace]
    exact .inr (List.rel_of_pairwise_cons hts hu)
  | @binary op p us vs l r hl hr ihl ihr =>
    intro hts
    have hleft := ihl (hts.of_infix (List.prefix_append _ _).isInfix)
    have hright := ihr (hts.of_infix (infix_behind _ _ _))
    have hbefore := before_of_binary hts hl hr
    refine List.pairwise_cons.mpr ⟨fun e' he' => ?_, List.pairwise_append.mpr
      ⟨hleft, hright, fun a ha b hb => .inr (hbefore a ha b hb)⟩⟩
    rcases List.mem_append.mp he' with he' | he'
    · -- the node begins where its left operand does, and that is the first one of its own walk
      obtain ⟨es, hes⟩ := l.walk_eq_cons
      rw [hes] at hleft he'
      rcases List.mem_cons.mp he' with rfl | he'
      · exact .refl _
      · exact List.rel_of_pairwise_cons hleft he'
    · exact .inr (hbefore l l.mem_walk_self e' he')
  | group p q h ih =>
    exact fun hts => ih (Increasing.of_infix hts.of_cons (List.prefix_append _ _).isInfix)

end Expr

/-- A node does not begin before the first token of those around it. -/
theorem Node.BuiltFrom.notAfter {n : Node} (h : n.BuiltFrom us) (hus : us <:+: t :: ts)
    (hts : Increasing (t :: ts)) : t.place.NotAfter n.place := by
  obtain ⟨u, hu, hplace⟩ := h.exists_place_eq
  rw [← hplace]
  exact hts.head_notAfter u (hus.subset hu)

/-- The nodes of a statement begin one after the other. -/
theorem Statement.BuiltFrom.walk_pairwise (h : s.BuiltFrom ts) (hts : Increasing ts) :
    (Node.ofStatement s).Pairwise fun n n' => n.place.NotAfter n'.place := by
  refine List.pairwise_cons.mpr ⟨fun n hn => ?_, ?_⟩
  · obtain ⟨us, hus, hbuilt⟩ := h.exists_builtFrom n (List.mem_cons_of_mem _ hn)
    obtain ⟨t, ts, rfl, -, hplace⟩ := h.exists_cons
    have hle := hbuilt.notAfter hus hts
    rw [hplace] at hle
    exact hle
  · rw [List.pairwise_map]
    cases s with
    | declaration name e p =>
      obtain ⟨id, q, us, -, rfl, he⟩ := h
      rw [expressions, List.flatMap_singleton]
      exact he.walk_pairwise (Increasing.of_infix hts ⟨[_, _, _], [], List.append_nil _⟩)
    | assignment id e p =>
      obtain ⟨-, q, us, rfl, he⟩ := h
      rw [expressions, List.flatMap_cons, List.flatMap_singleton]
      refine List.pairwise_cons.mpr ⟨fun e' he' => ?_, ?_⟩
      · obtain ⟨u, hu, hplace⟩ := he.exists_place_eq e' he'
        show id.place.NotAfter e'.place
        rw [← hplace]
        exact hts.head_notAfter u (List.mem_cons_of_mem _ (List.mem_cons_of_mem _ hu))
      · exact he.walk_pairwise (Increasing.of_infix hts ⟨[_, _], [], List.append_nil _⟩)
    | print e p =>
      obtain ⟨us, rfl, he⟩ := h
      rw [expressions, List.flatMap_singleton]
      exact he.walk_pairwise hts.of_cons

/-- The nodes of some statements begin one after the other. -/
theorem nodes_pairwise {uss : List (List Token)} {ss : List Statement}
    (h : List.Forall₂ Statement.BuiltFrom uss ss) : Increasing uss.flatten →
      (ss.flatMap Node.ofStatement).Pairwise fun n n' => n.place.NotAfter n'.place := by
  induction h with
  | nil => exact fun _ => .nil
  | cons hs hss ih =>
    intro hts
    rw [List.flatten_cons] at hts
    obtain ⟨hfirst, hmore, hbefore⟩ := List.pairwise_append.mp hts
    rw [List.flatMap_cons]
    refine List.pairwise_append.mpr ⟨hs.walk_pairwise hfirst, ih hmore, fun n hn n' hn' => ?_⟩
    -- nodes of different statements begin at tokens of different ones
    obtain ⟨us, hus, hbuilt⟩ := hs.exists_builtFrom n hn
    obtain ⟨us', hus', hbuilt'⟩ := exists_builtFrom_of_statements hss n' hn'
    obtain ⟨u, hu, hplace⟩ := hbuilt.exists_place_eq
    obtain ⟨u', hu', hplace'⟩ := hbuilt'.exists_place_eq
    rw [← hplace, ← hplace']
    exact .inr (hbefore u (hus.subset hu) u' (hus'.subset hu'))

/-- The nodes of a program begin one after the other. -/
theorem Program.BuiltFrom.walk_pairwise {p : Program} (h : p.BuiltFrom ts) (hts : Increasing ts) :
    (Node.program p).walk.Pairwise fun n n' => n.place.NotAfter n'.place := by
  refine List.pairwise_cons.mpr ⟨fun n hn => ?_, ?_⟩
  · obtain ⟨us, hus, hbuilt⟩ := Node.exists_builtFrom h n (List.mem_cons_of_mem _ hn)
    obtain ⟨hplace, -⟩ := h
    cases ts with
    | nil => cases hplace
    | cons t ts =>
      have hle := hbuilt.notAfter hus hts
      rw [Option.some.inj hplace] at hle
      exact hle
  · obtain ⟨-, uss, rfl, hss⟩ := h
    exact nodes_pairwise hss hts

end Order

/-! ### The nodes of a text -/

namespace Program

variable {limit : Nat} {source : String} {p : Program}

/-- A text that is a program is built from all its tokens but the last one. -/
theorem exists_builtFrom (h : ofTokensWithin limit (tokensOf source) = .ok p) :
    ∃ ts e, tokensOf source = ts ++ [.finish e] ∧ p.BuiltFrom ts := by
  obtain ⟨d, rest, rfl, -, htokens, hrest⟩ :=
    Derivation.of_accepted (fun t ht => wellFormed_of_mem_tokensOf ht) h
  obtain ⟨ts, e, hts, hne⟩ := tokensOf_eq_append_finish source
  obtain rfl : d.yield = ts := yield_eq_of_append_eq hne
    (fun t ht => (d.proper t ht).kind_ne_finish) rfl hrest (hts.symm.trans htokens)
  exact ⟨_, e, hts, d.builtFrom⟩

/-- **Nodes begin where their tokens do.** A text that is a program is built from its tokens, and
every node of it from some of them in a row: a literal and a name from their own token, an operator
with one operand from its token on, one with two from the tokens of its left operand on, a statement
and the target of an assignment from the same token on, the program from the first token on. The
place of a node is that of the first of its tokens that opens no parenthesis. So the nodes, from the
outside in and from left to right, begin one after the other, and a right operand begins behind all
nodes of the left one. -/
theorem places_of_nodes (h : ofTokensWithin limit (tokensOf source) = .ok p) :
    (∃ ts e, tokensOf source = ts ++ [.finish e] ∧ p.BuiltFrom ts) ∧
    (∀ n ∈ (Node.program p).walk, ∃ us t, us <:+: tokensOf source ∧ n.BuiltFrom us ∧
      leading? us = some t ∧ n.place = t.place) ∧
    ((Node.program p).walk.Pairwise fun n n' => n.place.NotAfter n'.place) ∧
    ∀ op l r q, Node.expr (.binary op l r q) ∈ (Node.program p).walk →
      ∀ e ∈ l.walk, e.place.Before r.place := by
  obtain ⟨ts, e, hts, hbuilt⟩ := exists_builtFrom h
  have hprefix : ts <:+: tokensOf source := ⟨[], [.finish e], hts.symm⟩
  have hincreasing := Increasing.of_infix (tokensOf_pairwise source) hprefix
  refine ⟨⟨ts, e, hts, hbuilt⟩, fun n hn => ?_, hbuilt.walk_pairwise hincreasing,
    fun op l r q hn a ha => ?_⟩
  · obtain ⟨us, hus, hnode⟩ := Node.exists_builtFrom hbuilt n hn
    obtain ⟨t, ht, hplace⟩ := hnode.exists_leading
    exact ⟨us, t, hus.trans hprefix, hnode, ht, hplace.symm⟩
  · obtain ⟨us, hus, -, vs, q', ws, rfl, hl, hr⟩ := Node.exists_builtFrom hbuilt _ hn
    have hbefore := Expr.before_of_binary (hincreasing.of_infix hus) hl hr
    exact hbefore a ha r r.mem_walk_self

/-- A sum in parentheses with a factor behind them begins with its first operand. -/
theorem places_of_nodes_of_group :
    let sum : Expr := .binary .plus (.name ⟨"x", ⟨1, 8⟩⟩) (.name ⟨"y", ⟨1, 12⟩⟩) ⟨1, 8⟩
    let product : Expr := .binary .times sum (.name ⟨"z", ⟨1, 17⟩⟩) ⟨1, 8⟩
    ofTokensWithin 2 (tokensOf "print (x + y) * z") =
        .ok ⟨[.print product ⟨1, 1⟩], ⟨1, 1⟩⟩ ∧
      ∃ us t, us <:+: tokensOf "print (x + y) * z" ∧ product.BuiltFrom us ∧
        leading? us = some t ∧ product.place = t.place := by
  intro sum product
  have h : ofTokensWithin 2 (tokensOf "print (x + y) * z") =
      .ok ⟨[.print product ⟨1, 1⟩], ⟨1, 1⟩⟩ := by decide +kernel
  exact ⟨h, (places_of_nodes h).2.1 (.expr product) (by decide +kernel)⟩

end Program

end AelSyntax
