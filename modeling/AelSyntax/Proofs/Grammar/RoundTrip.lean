import AelSyntax.Proofs.Grammar.Completeness
import AelSyntax.Proofs.Token.Spacing
import AelSyntax.Proofs.Tree.Writing
import Mathlib.Tactic.Common

/-! # Writing a program and reading it

The sorts of phrases are the levels of the grammar (`symbolAt`): a phrase of a level is one of every
lower level as well. So whatever an expression is written with, as long as parentheses stand where
they are needed, is the yield of a phrase whose tree is the expression (`Expr.Written.renders`), and
a text of such lexemes is read as the program that was written (`Program.round_trip`). -/

namespace AelSyntax

/-- The sort of phrases that may stand where a level is required. -/
def symbolAt : Nat → Symbol
  | 0 => .expression
  | 1 => .chain .sum
  | 2 => .term
  | 3 => .chain .product
  | 4 => .power
  | _ => .base

/-- Some phrase of a sort stands for an expression, with the given tokens and nestings. -/
def Symbol.Renders (s : Symbol) (e : Expr) (ks : List Token) (ns : List Nat) : Prop :=
  ∃ p : Phrase s, p.yield = ks ∧ p.nestings = ns ∧ e.sameTree p.tree = true

variable {e l r : Expr} {ks ls rs : List Token} {ms ns : List Nat} {p q : Place}

/-! ### Levels -/

theorem Symbol.Renders.chain {t : Tier} (h : t.operand.Renders e ks ns) :
    (Symbol.chain t).Renders e ks ns := by
  obtain ⟨f, rfl, rfl, hsame⟩ := h
  exact ⟨.chain f .done, by simp [Phrase.yield, Links.yield],
    by simp [Phrase.nestings, Links.nestings], hsame⟩

theorem renders_succ : ∀ {n : Nat},
    (symbolAt (n + 1)).Renders e ks ns → (symbolAt n).Renders e ks ns
  | 0, ⟨s, hy, hn, hsame⟩ => ⟨.plain s, hy, hn, hsame⟩
  | 1, h => Symbol.Renders.chain (t := .sum) h
  | 2, ⟨f, hy, hn, hsame⟩ => ⟨.bare f, hy, hn, hsame⟩
  | 3, h => Symbol.Renders.chain (t := .product) h
  | 4, ⟨b, hy, hn, hsame⟩ => ⟨.alone b, hy, hn, hsame⟩
  | _ + 5, h => h

/-- A phrase of a level is one of every lower level. -/
theorem renders_of_le {m n : Nat} (hle : m ≤ n) (h : (symbolAt n).Renders e ks ns) :
    (symbolAt m).Renders e ks ns := by
  induction hle with
  | refl => exact h
  | step _ ih => exact ih (renders_succ h)

theorem renders_of_base {n : Nat} (h : Symbol.base.Renders e ks ns) :
    (symbolAt n).Renders e ks ns :=
  renders_of_le (n := n + 5) (Nat.le_add_right n 5) h

/-! ### Operators -/

/-- A chain takes one more operand at its end. -/
theorem renders_link {t : Tier} {op : BinaryOp} (hop : op.tier? = some t)
    (hl : (Symbol.chain t).Renders l ls ms) (hr : t.operand.Renders r rs ns) :
    (Symbol.chain t).Renders (.binary op l r p) (ls ++ op.token q :: rs) (ms ++ ns) := by
  obtain ⟨c, rfl, rfl, hsl⟩ := hl
  obtain ⟨f, rfl, rfl, hsr⟩ := hr
  cases c with
  | chain first more =>
    refine ⟨.chain first (more.snoc op hop q f), ?_, ?_, ?_⟩
    · rw [Phrase.yield, Phrase.yield, Links.yield_snoc, List.append_assoc]
    · rw [Phrase.nestings, Phrase.nestings, Links.nestings_snoc, List.append_assoc]
    · rw [Phrase.tree] at hsl
      rw [Phrase.tree, Links.onto_snoc, Expr.sameTree, hsl, hsr, beq_self_eq_true]
      rfl

theorem map_add_zero (ns : List Nat) : ns.map (· + 0) = ns := List.map_id ns

theorem renders_binary (op : BinaryOp) (hl : (symbolAt op.leftLevel).Renders l ls ms)
    (hr : (symbolAt op.rightLevel).Renders r rs ns) :
    (symbolAt op.level).Renders (.binary op l r p) (ls ++ op.token q :: rs)
      (ms ++ ns.map (· + op.deepening)) := by
  cases op with
  | equals =>
    obtain ⟨l', rfl, rfl, hsl⟩ := hl
    obtain ⟨r', rfl, rfl, hsr⟩ := hr
    refine ⟨.compared l' q r', rfl, congrArg _ (map_add_zero _).symm, ?_⟩
    show (_ && l.sameTree l'.tree && r.sameTree r'.tree) = true
    rw [hsl, hsr]
    rfl
  | plus | minus =>
    rw [← map_add_zero ns] at hr
    exact renders_link (t := .sum) rfl hl hr
  | times | divide | modulo =>
    rw [← map_add_zero ns] at hr
    exact renders_link (t := .product) rfl hl hr
  | power =>
    obtain ⟨b, rfl, rfl, hsl⟩ := hl
    obtain ⟨x, rfl, rfl, hsr⟩ := hr
    refine ⟨.raised b q x, rfl, rfl, ?_⟩
    show (_ && l.sameTree b.tree && r.sameTree x.tree) = true
    rw [hsl, hsr]
    rfl

theorem renders_unary (op : UnaryOp) (h : (symbolAt op.operandLevel).Renders e ks ns) :
    (symbolAt op.level).Renders (.unary op e p) (op.token q :: ks) (ns.map (· + op.deepening)) := by
  obtain ⟨f, rfl, rfl, hsame⟩ := h
  have htree : (Expr.unary op e p).sameTree (.unary op f.tree q) = true := by
    rw [Expr.sameTree, hsame, beq_self_eq_true]
    rfl
  cases op with
  | negate => exact ⟨.negated q f, rfl, (map_add_zero _).symm, htree⟩
  | absolute =>
    have hf : UnaryOp.absolute ≠ .negate := by decide
    exact ⟨.applied .absolute hf q f, rfl, rfl, htree⟩
  | squareRoot =>
    have hf : UnaryOp.squareRoot ≠ .negate := by decide
    exact ⟨.applied .squareRoot hf q f, rfl, rfl, htree⟩

/-! ### Tokens of lexemes -/

theorem Token.eq_mk_of_text {t : Token} {k : Kind} {s : String} (h : Spells t.kind t.text.toList)
    (hk : Spells k s.toList) (hs : t.text = s) : t = ⟨k, s, t.place⟩ := by
  obtain ⟨k', s', p⟩ := t
  obtain rfl : s' = s := hs
  obtain rfl : k' = k := h.kind_unique hk
  rfl

theorem Token.eq_mk_of_fixedText? {t : Token} {k : Kind} {s : String}
    (h : Spells t.kind t.text.toList) (hk : k.fixedText? = some s) (hs : t.text = s) :
    t = ⟨k, s, t.place⟩ :=
  Token.eq_mk_of_text h (.of_fixedText? hk) hs

/-- Each token is spelled as its kind says. -/
def Spelled (ks : List Token) : Prop := ∀ t ∈ ks, Spells t.kind t.text.toList

theorem spelled_cons {t : Token} : Spelled (t :: ks) ↔ Spells t.kind t.text.toList ∧ Spelled ks :=
  List.forall_mem_cons

theorem spelled_append : Spelled (ls ++ rs) ↔ Spelled ls ∧ Spelled rs := List.forall_mem_append

/-- **What an expression is written with is the yield of a phrase**, of the sort that the place of
the expression asks for. -/
theorem Expr.Written.renders {level : Nat} {ss : List String} (h : e.Written level ss ns) :
    ∀ {ks : List Token}, ks.map Token.text = ss → Spelled ks →
      (symbolAt level).Renders e ks ns := by
  induction h with
  | @literal level v v' p text htext hread hsame =>
    intro ks hks hspelled
    obtain ⟨t, rfl, ht⟩ := List.map_eq_singleton_iff.mp hks
    rw [Token.eq_mk_of_text (hspelled t (List.mem_singleton_self t)) (.number htext) ht]
    exact renders_of_base ⟨.number ⟨text, v', htext, hread⟩ t.place, rfl, rfl, hsame⟩
  | @name level id hname =>
    intro ks hks hspelled
    obtain ⟨t, rfl, ht⟩ := List.map_eq_singleton_iff.mp hks
    rw [Token.eq_mk_of_text (hspelled t (List.mem_singleton_self t)) hname ht]
    exact renders_of_base ⟨.name ⟨id.name, t.place⟩, rfl, rfl, beq_self_eq_true id.name⟩
  | @binary level op l r p ls rs ms ns hlevel _ _ ihl ihr =>
    intro ks hks hspelled
    obtain ⟨ls', ks', rfl, hls, hks'⟩ := List.map_eq_append_iff.mp hks
    obtain ⟨t, rs', rfl, ht, hrs⟩ := List.map_eq_cons_iff.mp hks'
    obtain ⟨hspell, hspell'⟩ := spelled_append.mp hspelled
    obtain ⟨hop, hspell'⟩ := spelled_cons.mp hspell'
    rw [Token.eq_mk_of_fixedText? hop op.fixedText?_kind ht]
    exact renders_of_le hlevel (renders_binary op (ihl hls hspell) (ihr hrs hspell'))
  | @unary level op e p ss ns hlevel _ ih =>
    intro ks hks hspelled
    obtain ⟨t, ks', rfl, ht, hks'⟩ := List.map_eq_cons_iff.mp hks
    obtain ⟨hop, hspell⟩ := spelled_cons.mp hspelled
    rw [Token.eq_mk_of_fixedText? hop op.fixedText?_kind ht]
    exact renders_of_le hlevel (renders_unary op (ih hks' hspell))
  | @group level e ss ns _ ih =>
    intro ks hks hspelled
    obtain ⟨t, ks', rfl, ht, hks'⟩ := List.map_eq_cons_iff.mp hks
    obtain ⟨inner, last, rfl, hinner, hlast⟩ := List.map_eq_append_iff.mp hks'
    obtain ⟨t', rfl, ht'⟩ := List.map_eq_singleton_iff.mp hlast
    obtain ⟨hopen, hspell⟩ := spelled_cons.mp hspelled
    obtain ⟨hspell, hclose⟩ := spelled_append.mp hspell
    rw [Token.eq_mk_of_fixedText? (k := .openParen) hopen rfl ht,
      Token.eq_mk_of_fixedText? (k := .closeParen) (hclose t' (List.mem_singleton_self t')) rfl ht']
    obtain ⟨f, rfl, rfl, hsame⟩ := ih hinner hspell
    exact renders_of_base ⟨.group t.place f t'.place, rfl, rfl, hsame⟩

/-! ### Programs -/

theorem Statement.Written.exists_clause {a : Statement} {ss : List String} (h : a.Written ss ns)
    (hks : ks.map Token.text = ss) (hspelled : Spelled ks) :
    ∃ s : Clause, s.yield = ks ∧ s.nestings = ns ∧ a.sameTree s.tree = true := by
  cases h with
  | @declaration name e p ss ns hname h =>
    obtain ⟨t, ks, rfl, ht, hks⟩ := List.map_eq_cons_iff.mp hks
    obtain ⟨t', ks, rfl, ht', hks⟩ := List.map_eq_cons_iff.mp hks
    obtain ⟨t'', ks, rfl, ht'', hks⟩ := List.map_eq_cons_iff.mp hks
    simp only [spelled_cons] at hspelled
    obtain ⟨hlet, hid, hsign, hspelled⟩ := hspelled
    obtain ⟨f, rfl, rfl, hsame⟩ := h.renders hks hspelled
    rw [Token.eq_mk_of_fixedText? (k := .letWord) hlet rfl ht, Token.eq_mk_of_text hid hname ht',
      Token.eq_mk_of_fixedText? (k := .assign) hsign rfl ht'']
    refine ⟨.declaration t.place ⟨name, t'.place⟩ t''.place f, rfl, rfl, ?_⟩
    show (name == name && e.sameTree f.tree) = true
    rw [hsame, beq_self_eq_true]
    rfl
  | @assignment id e p ss ns hname h =>
    obtain ⟨t, ks, rfl, ht, hks⟩ := List.map_eq_cons_iff.mp hks
    obtain ⟨t', ks, rfl, ht', hks⟩ := List.map_eq_cons_iff.mp hks
    simp only [spelled_cons] at hspelled
    obtain ⟨hid, hsign, hspelled⟩ := hspelled
    obtain ⟨f, rfl, rfl, hsame⟩ := h.renders hks hspelled
    rw [Token.eq_mk_of_text hid hname ht, Token.eq_mk_of_fixedText? (k := .assign) hsign rfl ht']
    refine ⟨.assignment ⟨id.name, t.place⟩ t'.place f, rfl, rfl, ?_⟩
    show (id.name == id.name && e.sameTree f.tree) = true
    rw [hsame, beq_self_eq_true]
    rfl
  | @print e p ss ns h =>
    obtain ⟨t, ks, rfl, ht, hks⟩ := List.map_eq_cons_iff.mp hks
    obtain ⟨hword, hspelled⟩ := spelled_cons.mp hspelled
    obtain ⟨f, rfl, rfl, hsame⟩ := h.renders hks hspelled
    rw [Token.eq_mk_of_fixedText? (k := .printWord) hword rfl ht]
    exact ⟨.print t.place f, rfl, rfl, hsame⟩

theorem StatementsWritten.exists_clauses {as : List Statement} {ss : List String}
    (h : StatementsWritten as ss ns) :
    ∀ {ks : List Token}, ks.map Token.text = ss → Spelled ks →
      ∃ cs : List Clause, cs.flatMap Clause.yield = ks ∧ cs.flatMap Clause.nestings = ns ∧
        sameStatements as (cs.map Clause.tree) = true := by
  induction h with
  | nil =>
    intro ks hks _
    rw [List.map_eq_nil_iff.mp hks]
    exact ⟨[], rfl, rfl, rfl⟩
  | cons h _ ih =>
    intro ks hks hspelled
    obtain ⟨ks₁, ks₂, rfl, hks₁, hks₂⟩ := List.map_eq_append_iff.mp hks
    obtain ⟨hspell₁, hspell₂⟩ := spelled_append.mp hspelled
    obtain ⟨s, rfl, rfl, hs⟩ := h.exists_clause hks₁ hspell₁
    obtain ⟨cs, rfl, rfl, hcs⟩ := ih hks₂ hspell₂
    refine ⟨s :: cs, List.flatMap_cons, List.flatMap_cons, ?_⟩
    rw [List.map_cons, sameStatements, hs, hcs]
    rfl

/-! ### What is written is spelled -/

theorem Expr.Written.spells {level : Nat} {ss : List String} (h : e.Written level ss ns) :
    ∀ s ∈ ss, ∃ k, Spells k s.toList := by
  induction h with
  | literal htext =>
    rw [List.forall_mem_singleton]
    exact ⟨_, .number htext⟩
  | name hname =>
    rw [List.forall_mem_singleton]
    exact ⟨_, hname⟩
  | @binary _ op _ _ _ _ _ _ _ _ _ _ ihl ihr =>
    rw [List.forall_mem_append, List.forall_mem_cons]
    exact ⟨ihl, ⟨_, .of_fixedText? op.fixedText?_kind⟩, ihr⟩
  | @unary _ op _ _ _ _ _ _ ih =>
    rw [List.forall_mem_cons]
    exact ⟨⟨_, .of_fixedText? op.fixedText?_kind⟩, ih⟩
  | group _ ih =>
    rw [List.forall_mem_cons, List.forall_mem_append, List.forall_mem_singleton]
    exact ⟨⟨_, .of_fixedText? (k := .openParen) rfl⟩, ih,
      ⟨_, .of_fixedText? (k := .closeParen) rfl⟩⟩

theorem Statement.Written.spells {a : Statement} {ss : List String} (h : a.Written ss ns) :
    ∀ s ∈ ss, ∃ k, Spells k s.toList := by
  have hsign : ∃ k, Spells k "=".toList := ⟨_, .of_fixedText? (k := .assign) rfl⟩
  cases h with
  | declaration hname h =>
    simp only [List.forall_mem_cons]
    exact ⟨⟨_, .of_fixedText? (k := .letWord) rfl⟩, ⟨_, hname⟩, hsign, h.spells⟩
  | assignment hname h =>
    simp only [List.forall_mem_cons]
    exact ⟨⟨_, hname⟩, hsign, h.spells⟩
  | print h =>
    rw [List.forall_mem_cons]
    exact ⟨⟨_, .of_fixedText? (k := .printWord) rfl⟩, h.spells⟩

theorem StatementsWritten.spells {as : List Statement} {ss : List String}
    (h : StatementsWritten as ss ns) : ∀ s ∈ ss, ∃ k, Spells k s.toList := by
  induction h with
  | nil => simp
  | cons h _ ih =>
    rw [List.forall_mem_append]
    exact ⟨h.spells, ih⟩

/-- **Reading gives back what was written.** If statements are written with some lexemes, one
behind the other, and the lexemes are put apart in a text, then the text is read, if the limit
allows the nestings, and its statements are those that were written, but for their places. -/
theorem Program.round_trip (as : List Statement) (hne : as ≠ []) (ss : List String) (ns : List Nat)
    (h : StatementsWritten as ss ns) (source : String) (hsource : Spaced ss source.toList)
    (limit : Nat) (hlimit : ∀ n ∈ ns, n ≤ limit) :
    ∃ p, Program.ofTokensWithin limit (tokensOf source) = .ok p ∧
      sameStatements as p.statements = true := by
  obtain ⟨ks, q, htokens, htexts, hspelled⟩ := hsource.exists_tokensOf h.spells
  obtain ⟨cs, rfl, rfl, hsame⟩ := h.exists_clauses htexts hspelled
  cases cs with
  | nil =>
    cases as with
    | nil => exact absurd rfl hne
    | cons a as => cases hsame
  | cons s cs =>
    refine ⟨(Derivation.mk s cs).tree, ?_, hsame⟩
    rw [htokens]
    exact Derivation.accepted ⟨s, cs⟩ hlimit rfl

/-- A negation that is raised to a power needs its parentheses, and they take the name in it one
level deeper. -/
theorem Program.round_trip_of_raised_negation :
    ∃ p, Program.ofTokensWithin 2 (tokensOf " print ( - x ) ** 2") = .ok p ∧
      sameStatements [.print (.binary .power (.unary .negate (.name ⟨"x", .start⟩) .start)
        (.literal (.signed false (.ofPlace (1024 * bandSize))) .start) .start) .start]
        p.statements = true := by
  have hword : IsWord "x".toList := by decide
  have hx : Spells .identifier "x".toList := Spells.word hword
  have htwo : IsNumber "2".toList := .whole ⟨by decide, List.all_eq_true.mp (by decide)⟩
  have hread : Numeral.read "2" = some (.signed false (.ofPlace (1024 * bandSize))) := by
    decide +kernel
  have hsame : (Binary64.signed false (.ofPlace (1024 * bandSize))).sameValue
      (.signed false (.ofPlace (1024 * bandSize))) = true := by decide +kernel
  have hname : Expr.Written 3 (.name ⟨"x", .start⟩) ["x"] [1] := .name hx
  have hnegation := Expr.Written.unary (p := .start) (Nat.zero_le UnaryOp.negate.level) hname
  have hpower := Expr.Written.binary (p := .start) (Nat.zero_le BinaryOp.power.level)
    hnegation.group (.literal (p := .start) htwo hread hsame)
  have hwritten := StatementsWritten.cons (.print (p := .start) hpower) .nil
  exact Program.round_trip _ (List.cons_ne_nil _ _) _ _ hwritten " print ( - x ) ** 2"
    (spaced_of_spaces _) 2 (by decide)

end AelSyntax
