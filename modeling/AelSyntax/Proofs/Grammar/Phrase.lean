import AelSyntax.Proofs.Token.WellFormed
import Mathlib.Tactic.Common

/-! # Phrases of the grammar

A phrase is a derivation in the grammar of expressions, written out with the places of its tokens.

    expression = sum, [ "==", sum ]
    sum        = term, { ( "+" | "-" ), term }
    term       = [ "-" ], product
    product    = power, { ( "*" | "/" | "%" ), power }
    power      = base, [ "**", power ] | ( "abs" | "sqrt" ), power
    base       = name | number | "(", expression, ")"

A phrase yields the tokens that it is read from and the tree that it stands for. Every name and
every number in it has a nesting: one more than the parentheses, the operands of functions and the
exponents that it stands in. A clause is a derivation of a statement, a derivation one of a program.
Which tokens would continue a phrase is said by `Symbol.extenders`. -/

namespace AelSyntax

/-! ### Phrases -/

/-- The tiers of operators that are chained and lean to the left. -/
inductive Tier where
  | sum
  | product
deriving DecidableEq

/-- The tier of an operator that is chained. -/
def BinaryOp.tier? : BinaryOp → Option Tier
  | .plus | .minus => some .sum
  | .times | .divide | .modulo => some .product
  | .equals | .power => none

/-- The sorts of phrases; a chain is a sum or a product. -/
inductive Symbol where
  | expression
  | chain (t : Tier)
  | term
  | power
  | base
deriving DecidableEq

/-- What is chained in a tier. -/
def Tier.operand : Tier → Symbol
  | sum => .term
  | product => .power

mutual

/-- A derivation of an expression or of a part of one. -/
inductive Phrase : Symbol → Type
  | plain (s : Phrase (.chain .sum)) : Phrase .expression
  | compared (left : Phrase (.chain .sum)) (op : Place) (right : Phrase (.chain .sum)) :
    Phrase .expression
  | chain {t : Tier} (first : Phrase t.operand) (more : Links t) : Phrase (.chain t)
  | bare (f : Phrase (.chain .product)) : Phrase .term
  | negated (op : Place) (f : Phrase (.chain .product)) : Phrase .term
  | alone (b : Phrase .base) : Phrase .power
  | raised (b : Phrase .base) (op : Place) (exponent : Phrase .power) : Phrase .power
  | applied (f : UnaryOp) (hf : f ≠ .negate) (op : Place) (operand : Phrase .power) : Phrase .power
  | name (id : Identifier) : Phrase .base
  | number (n : Number) (p : Place) : Phrase .base
  | group (left : Place) (inside : Phrase .expression) (right : Place) : Phrase .base

/-- The operators of a tier with the operands behind them, from left to right. -/
inductive Links : Tier → Type
  | done {t : Tier} : Links t
  | link {t : Tier} (op : BinaryOp) (hop : op.tier? = some t) (p : Place)
    (operand : Phrase t.operand) (more : Links t) : Links t

end

mutual

/-- The tokens a phrase is read from. -/
def Phrase.yield : {s : Symbol} → Phrase s → List Token
  | _, .plain s => s.yield
  | _, .compared l p r => l.yield ++ BinaryOp.equals.token p :: r.yield
  | _, .chain first more => first.yield ++ more.yield
  | _, .bare f => f.yield
  | _, .negated p f => UnaryOp.negate.token p :: f.yield
  | _, .alone b => b.yield
  | _, .raised b p e => b.yield ++ BinaryOp.power.token p :: e.yield
  | _, .applied f _ p e => f.token p :: e.yield
  | _, .name id => [id.token]
  | _, .number n p => [n.token p]
  | _, .group p e q => .opening p :: (e.yield ++ [.closing q])

/-- The tokens that links are read from. -/
def Links.yield : {t : Tier} → Links t → List Token
  | _, .done => []
  | _, .link op _ p e more => op.token p :: (e.yield ++ more.yield)

end

mutual

/-- The nestings of the names and numbers of a phrase, from left to right. -/
def Phrase.nestings : {s : Symbol} → Phrase s → List Nat
  | _, .plain s => s.nestings
  | _, .compared l _ r => l.nestings ++ r.nestings
  | _, .chain first more => first.nestings ++ more.nestings
  | _, .bare f => f.nestings
  | _, .negated _ f => f.nestings
  | _, .alone b => b.nestings
  | _, .raised b _ e => b.nestings ++ e.nestings.map (· + 1)
  | _, .applied _ _ _ e => e.nestings.map (· + 1)
  | _, .name _ => [1]
  | _, .number _ _ => [1]
  | _, .group _ e _ => e.nestings.map (· + 1)

/-- The nestings of the names and numbers of links, from left to right. -/
def Links.nestings : {t : Tier} → Links t → List Nat
  | _, .done => []
  | _, .link _ _ _ e more => e.nestings ++ more.nestings

end

mutual

/-- The tree of a phrase. -/
def Phrase.tree : {s : Symbol} → Phrase s → Expr
  | _, .plain s => s.tree
  | _, .compared l _ r => .binary .equals l.tree r.tree l.tree.place
  | _, .chain first more => more.onto first.tree
  | _, .bare f => f.tree
  | _, .negated p f => .unary .negate f.tree p
  | _, .alone b => b.tree
  | _, .raised b _ e => .binary .power b.tree e.tree b.tree.place
  | _, .applied f _ p e => .unary f e.tree p
  | _, .name id => .name id
  | _, .number n p => .literal n.value p
  | _, .group _ e _ => e.tree

/-- The tree of links behind an operand: they lean to the left. -/
def Links.onto : {t : Tier} → Links t → Expr → Expr
  | _, .done, left => left
  | _, .link op _ _ e more, left => more.onto (.binary op left e.tree left.place)

end

/-! ### Clauses and derivations -/

/-- A derivation of a statement. -/
inductive Clause where
  | declaration (start : Place) (name : Identifier) (sign : Place) (e : Phrase .expression)
  | assignment (target : Identifier) (sign : Place) (e : Phrase .expression)
  | print (start : Place) (e : Phrase .expression)

namespace Clause

/-- The tokens a clause is read from. -/
def yield : Clause → List Token
  | declaration p name q e => .declaring p :: name.token :: .assigning q :: e.yield
  | assignment target q e => target.token :: .assigning q :: e.yield
  | print p e => .printing p :: e.yield

/-- The expression of a clause, which stands at its end. -/
def expression : Clause → Phrase .expression
  | declaration _ _ _ e => e
  | assignment _ _ e => e
  | print _ e => e

/-- The nestings of the names and numbers of the expression of a clause. -/
def nestings (s : Clause) : List Nat := s.expression.nestings

/-- The statement of a clause. -/
def tree : Clause → Statement
  | declaration p name _ e => .declaration name.name e.tree p
  | assignment target _ e => .assignment target e.tree target.place
  | print p e => .print e.tree p

end Clause

/-- A derivation of a program. -/
structure Derivation where
  first : Clause
  more : List Clause

namespace Derivation

/-- The clauses of a derivation. -/
def clauses (d : Derivation) : List Clause := d.first :: d.more

/-- The tokens a program is read from. -/
def yield (d : Derivation) : List Token := d.clauses.flatMap Clause.yield

/-- The nestings of the names and numbers of the expressions of a program. -/
def nestings (d : Derivation) : List Nat := d.clauses.flatMap Clause.nestings

/-- The program of a derivation; it begins where its first statement does. -/
def tree (d : Derivation) : Program := ⟨d.clauses.map Clause.tree, d.first.tree.place⟩

end Derivation

/-! ### Room for nestings -/

/-- No nesting is above a number of levels. -/
def Within (room : Nat) (ns : List Nat) : Prop := ∀ n ∈ ns, n ≤ room

theorem within_append {room : Nat} {ms ns : List Nat} :
    Within room (ms ++ ns) ↔ Within room ms ∧ Within room ns := List.forall_mem_append

theorem within_map_succ {room : Nat} {ns : List Nat} :
    Within (room + 1) (ns.map (· + 1)) ↔ Within room ns := by
  constructor
  · intro h n hn
    have := h (n + 1) (List.mem_map_of_mem hn)
    omega
  · intro h n hn
    obtain ⟨m, hm, rfl⟩ := List.mem_map.mp hn
    have := h m hm
    omega

theorem Within.mono {room room' : Nat} {ns : List Nat} (h : Within room ns) (hle : room ≤ room') :
    Within room' ns := fun n hn => (h n hn).trans hle

/-- A phrase holds a name or a number. -/
theorem Phrase.exists_nesting : ∀ {s : Symbol} (p : Phrase s), ∃ n ∈ p.nestings, 1 ≤ n
  | _, .plain s => s.exists_nesting
  | _, .compared l _ _ => by
    obtain ⟨n, hn, h⟩ := l.exists_nesting
    exact ⟨n, List.mem_append_left _ hn, h⟩
  | _, .chain first _ => by
    obtain ⟨n, hn, h⟩ := first.exists_nesting
    exact ⟨n, List.mem_append_left _ hn, h⟩
  | _, .bare f => f.exists_nesting
  | _, .negated _ f => f.exists_nesting
  | _, .alone b => b.exists_nesting
  | _, .raised b _ _ => by
    obtain ⟨n, hn, h⟩ := b.exists_nesting
    exact ⟨n, List.mem_append_left _ hn, h⟩
  | _, .applied _ _ _ e => by
    obtain ⟨n, hn, h⟩ := e.exists_nesting
    exact ⟨n + 1, List.mem_map_of_mem hn, by omega⟩
  | _, .name _ => ⟨1, List.mem_singleton_self 1, le_rfl⟩
  | _, .number _ _ => ⟨1, List.mem_singleton_self 1, le_rfl⟩
  | _, .group _ e _ => by
    obtain ⟨n, hn, h⟩ := e.exists_nesting
    exact ⟨n + 1, List.mem_map_of_mem hn, by omega⟩

theorem Phrase.not_within_zero {s : Symbol} (p : Phrase s) : ¬ Within 0 p.nestings := by
  intro h
  obtain ⟨n, hn, hpos⟩ := p.exists_nesting
  have := h n hn
  omega

/-! ### Links at the end -/

/-- Links with one more operand behind them. -/
def Links.snoc {t : Tier} (op : BinaryOp) (hop : op.tier? = some t) (p : Place)
    (operand : Phrase t.operand) : Links t → Links t
  | .done => .link op hop p operand .done
  | .link op' hop' p' operand' more => .link op' hop' p' operand' (more.snoc op hop p operand)

section Snoc

variable {t : Tier} {op : BinaryOp} {hop : op.tier? = some t} {p : Place} {e : Phrase t.operand}

theorem Links.yield_snoc : ∀ m : Links t,
    (m.snoc op hop p e).yield = m.yield ++ op.token p :: e.yield
  | .done => by simp [snoc, yield]
  | .link op' hop' p' e' more => by
    rw [snoc, yield, yield, yield_snoc more, List.cons_append, List.append_assoc]

theorem Links.nestings_snoc : ∀ m : Links t,
    (m.snoc op hop p e).nestings = m.nestings ++ e.nestings
  | .done => by simp [snoc, nestings]
  | .link op' hop' p' e' more => by
    rw [snoc, nestings, nestings, nestings_snoc more, List.append_assoc]

theorem Links.onto_snoc : ∀ (m : Links t) (left : Expr),
    (m.snoc op hop p e).onto left = .binary op (m.onto left) e.tree (m.onto left).place
  | .done, left => rfl
  | .link op' hop' p' e' more, left => by
    rw [snoc, onto, onto, onto_snoc more]

end Snoc

/-! ### The tokens of a phrase -/

mutual

theorem Phrase.proper : ∀ {s : Symbol} (p : Phrase s), ∀ t ∈ p.yield, t.Proper
  | _, .plain s => s.proper
  | _, .compared l p r => by
    rw [Phrase.yield, List.forall_mem_append, List.forall_mem_cons]
    exact ⟨l.proper, BinaryOp.proper_token _ p, r.proper⟩
  | _, .chain first more => by
    rw [Phrase.yield, List.forall_mem_append]
    exact ⟨first.proper, more.proper⟩
  | _, .bare f => f.proper
  | _, .negated p f => by
    rw [Phrase.yield, List.forall_mem_cons]
    exact ⟨UnaryOp.proper_token _ p, f.proper⟩
  | _, .alone b => b.proper
  | _, .raised b p e => by
    rw [Phrase.yield, List.forall_mem_append, List.forall_mem_cons]
    exact ⟨b.proper, BinaryOp.proper_token _ p, e.proper⟩
  | _, .applied f _ p e => by
    rw [Phrase.yield, List.forall_mem_cons]
    exact ⟨f.proper_token p, e.proper⟩
  | _, .name id => by
    rw [Phrase.yield, List.forall_mem_singleton]
    exact id.proper_token
  | _, .number n p => by
    rw [Phrase.yield, List.forall_mem_singleton]
    exact n.proper_token p
  | _, .group p e q => by
    rw [Phrase.yield, List.forall_mem_cons, List.forall_mem_append, List.forall_mem_singleton]
    exact ⟨Token.proper_mk rfl, e.proper, Token.proper_mk rfl⟩

theorem Links.proper : ∀ {t : Tier} (m : Links t), ∀ t ∈ m.yield, t.Proper
  | _, .done => by simp [Links.yield]
  | _, .link op _ p e more => by
    rw [Links.yield, List.forall_mem_cons, List.forall_mem_append]
    exact ⟨op.proper_token p, e.proper, more.proper⟩

end

theorem Clause.proper (s : Clause) : ∀ t ∈ s.yield, t.Proper := by
  cases s with
  | declaration p name q e =>
    simp only [Clause.yield, List.forall_mem_cons]
    exact ⟨Token.proper_mk rfl, name.proper_token, Token.proper_mk rfl, e.proper⟩
  | assignment target q e =>
    simp only [Clause.yield, List.forall_mem_cons]
    exact ⟨target.proper_token, Token.proper_mk rfl, e.proper⟩
  | print p e =>
    simp only [Clause.yield, List.forall_mem_cons]
    exact ⟨Token.proper_mk rfl, e.proper⟩

/-- The tokens of a derivation are well formed and belong to lexemes. -/
theorem Derivation.proper (d : Derivation) : ∀ t ∈ d.yield, t.Proper := by
  intro t ht
  obtain ⟨s, -, hs⟩ := List.mem_flatMap.mp ht
  exact s.proper t hs

/-! ### What may follow a phrase -/

/-- The operators of a tier. -/
def Tier.kinds : Tier → List Kind
  | sum => [.plus, .minus]
  | product => [.times, .divide, .modulo]

/-- The kinds of tokens that would continue some phrase of a sort. -/
def Symbol.extenders : Symbol → List Kind
  | base => []
  | power => [.power]
  | chain .product => [.power, .times, .divide, .modulo]
  | term => [.power, .times, .divide, .modulo]
  | chain .sum => [.power, .times, .divide, .modulo, .plus, .minus]
  | expression => [.power, .times, .divide, .modulo, .plus, .minus, .equals]

/-- The kinds of tokens that would continue a phrase; a comparison takes no second sign. -/
def Phrase.extenders : {s : Symbol} → Phrase s → List Kind
  | _, .compared _ _ _ => (Symbol.chain .sum).extenders
  | s, _ => s.extenders

/-- The kind of the first token; nothing left counts as the end of the text. -/
def headKind (ts : List Token) : Kind := (ts.head?.map Token.kind).getD .finish

theorem Symbol.extenders_chain (t : Tier) :
    (Symbol.chain t).extenders = t.operand.extenders ++ t.kinds := by
  cases t <;> rfl

theorem BinaryOp.kind_mem_kinds {o : BinaryOp} {t : Tier} (h : o.tier? = some t) :
    o.kind ∈ t.kinds := by
  cases o <;> cases h <;> decide

theorem BinaryOp.kind_mem_extenders {o : BinaryOp} {t : Tier} (h : o.tier? = some t) :
    o.kind ∈ (Symbol.chain t).extenders := by
  rw [Symbol.extenders_chain]
  exact List.mem_append_right _ (BinaryOp.kind_mem_kinds h)

theorem Tier.not_mem_extenders {t : Tier} {k : Kind} (h : k ∈ t.kinds) :
    k ∉ t.operand.extenders := by
  cases t <;> revert k <;> decide

theorem UnaryOp.kind_of_ne_negate {f : UnaryOp} (hf : f ≠ .negate) :
    f.kind = .absWord ∨ f.kind = .sqrtWord := by
  cases f
  · exact absurd rfl hf
  · exact .inl rfl
  · exact .inr rfl

theorem Symbol.not_mem_sum {k : Kind} (h : k ∉ Symbol.expression.extenders) :
    k ∉ (Symbol.chain .sum).extenders := fun hmem =>
  h ((show ∀ k ∈ (Symbol.chain .sum).extenders, k ∈ Symbol.expression.extenders by decide) k hmem)

theorem Symbol.not_mem_expression {k : Kind} (h : k ∉ (Symbol.chain .sum).extenders)
    (hk : k ≠ .equals) : k ∉ Symbol.expression.extenders := by
  intro hmem
  rw [show Symbol.expression.extenders = (Symbol.chain .sum).extenders ++ [.equals] from rfl,
    List.mem_append, List.mem_singleton] at hmem
  exact hmem.elim h hk

theorem Symbol.equals_not_mem_sum : Kind.equals ∉ (Symbol.chain .sum).extenders := by decide

theorem Symbol.equals_mem_expression : Kind.equals ∈ Symbol.expression.extenders := by decide

theorem Symbol.closeParen_not_mem_expression : Kind.closeParen ∉ Symbol.expression.extenders := by
  decide

theorem Phrase.not_mem_extenders {s : Symbol} (p : Phrase s) {k : Kind} (h : k ∉ s.extenders) :
    k ∉ p.extenders := by
  cases p with
  | compared => exact Symbol.not_mem_sum h
  | _ => exact h

theorem Phrase.not_mem_extenders_base (b : Phrase .base) {k : Kind} : k ∉ b.extenders :=
  b.not_mem_extenders List.not_mem_nil

/-- In every sort but that of expressions all phrases are continued by the same tokens. -/
theorem Phrase.extenders_eq {s : Symbol} (hs : s ≠ .expression) (p : Phrase s) :
    p.extenders = s.extenders := by
  cases p with
  | compared => exact absurd rfl hs
  | _ => rfl

/-- What follows an expression does not continue the sum at its end. -/
theorem Phrase.not_mem_sum (p : Phrase .expression) {k : Kind} (h : k ∉ p.extenders) :
    k ∉ (Symbol.chain .sum).extenders := by
  cases p with
  | plain => exact Symbol.not_mem_sum h
  | compared => exact h

theorem Tier.operand_ne_expression (t : Tier) : t.operand ≠ .expression := by
  cases t <;> decide

theorem Tier.not_mem_operand {t : Tier} {k : Kind} (h : k ∉ (Symbol.chain t).extenders) :
    k ∉ t.operand.extenders := by
  rw [Symbol.extenders_chain, List.mem_append, not_or] at h
  exact h.1

/-- Neither links nor what follows them continue the operand before. -/
theorem Links.headKind_not_mem {t : Tier} (m : Links t) {rest : List Token}
    (h : headKind rest ∉ t.operand.extenders) :
    headKind (m.yield ++ rest) ∉ t.operand.extenders := by
  cases m with
  | done => exact h
  | link op hop p e more => exact Tier.not_mem_extenders (BinaryOp.kind_mem_kinds hop)

theorem Phrase.headKind_base (b : Phrase .base) (rest : List Token) :
    headKind (b.yield ++ rest) = .identifier ∨ headKind (b.yield ++ rest) = .number ∨
      headKind (b.yield ++ rest) = .openParen := by
  cases b with
  | name id => exact .inl rfl
  | number n p => exact .inr (.inl rfl)
  | group p e q => exact .inr (.inr rfl)

theorem Phrase.headKind_base_ne_function (b : Phrase .base) (rest : List Token) {f : UnaryOp}
    (hf : f ≠ .negate) : headKind (b.yield ++ rest) ≠ f.kind := by
  rcases UnaryOp.kind_of_ne_negate hf with hk | hk <;>
    rcases b.headKind_base rest with h | h | h <;> rw [h, hk] <;> decide

/-- No power begins with a minus sign. -/
theorem Phrase.headKind_power_ne_minus (p : Phrase .power) (rest : List Token) :
    headKind (p.yield ++ rest) ≠ .minus := by
  have hbase : ∀ (b : Phrase .base) (rest : List Token), headKind (b.yield ++ rest) ≠ .minus := by
    intro b rest
    rcases b.headKind_base rest with h | h | h <;> rw [h] <;> decide
  cases p with
  | alone b => exact hbase b rest
  | raised b q e =>
    rw [Phrase.yield, List.append_assoc]
    exact hbase b _
  | applied f hf q e =>
    show f.kind ≠ .minus
    rcases UnaryOp.kind_of_ne_negate hf with h | h <;> rw [h] <;> decide

theorem Phrase.headKind_product_ne_minus (f : Phrase (.chain .product)) (rest : List Token) :
    headKind (f.yield ++ rest) ≠ .minus := by
  cases f with
  | chain first more =>
    rw [Phrase.yield, List.append_assoc]
    exact Phrase.headKind_power_ne_minus first _

/-! ### What may follow a clause -/

/-- The kinds of tokens that would continue a clause. -/
def Clause.extenders (s : Clause) : List Kind := s.expression.extenders

theorem Clause.not_mem_extenders (s : Clause) {k : Kind} (h : k ∉ Symbol.expression.extenders) :
    k ∉ s.extenders := s.expression.not_mem_extenders h

/-- The kinds of tokens that begin a statement. -/
def Clause.starters : List Kind := [.letWord, .identifier, .printWord]

theorem Clause.headKind_mem (s : Clause) (rest : List Token) :
    headKind (s.yield ++ rest) ∈ Clause.starters := by
  cases s with
  | declaration => exact (by decide : Kind.letWord ∈ Clause.starters)
  | assignment => exact (by decide : Kind.identifier ∈ Clause.starters)
  | print => exact (by decide : Kind.printWord ∈ Clause.starters)

theorem Clause.not_mem_expression {k : Kind} (h : k ∈ Clause.starters) :
    k ∉ Symbol.expression.extenders := by
  revert k
  decide

theorem Clause.headKind_ne_finish (s : Clause) (rest : List Token) :
    headKind (s.yield ++ rest) ≠ .finish := by
  intro h
  have hmem := s.headKind_mem rest
  rw [h] at hmem
  exact absurd hmem (by decide)

theorem Clause.yield_ne_nil (s : Clause) : s.yield ≠ [] := by
  cases s <;> simp [Clause.yield]

/-- What begins a statement, or ends the text, does not continue an expression. -/
theorem headKind_clauses_not_mem (ss : List Clause) {rest : List Token}
    (hr : headKind rest = .finish) :
    headKind (ss.flatMap Clause.yield ++ rest) ∉ Symbol.expression.extenders := by
  cases ss with
  | nil =>
    rw [List.flatMap_nil, List.nil_append, hr]
    decide
  | cons s ss =>
    rw [List.flatMap_cons, List.append_assoc]
    exact Clause.not_mem_expression (s.headKind_mem _)

end AelSyntax
