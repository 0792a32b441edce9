import AelSyntax.Proofs.Grammar.Soundness
import AelSyntax.Proofs.Token.Spacing
import AelSyntax.Proofs.Tree.Picture

/-! # Programs that are read are legible

The texts of tokens hold no layout, so none of them holds a newline, and a numeral has no sign. The
tree of a derivation takes its names and numbers from the tokens, and is therefore legible
(`Derivation.legible`): the picture of a program that is read determines it up to the places
(`Program.picture_eq_iff`). -/

namespace AelSyntax

open AelSyntax.Text

/-! ### Texts of tokens -/

theorem Spells.isLine {k : Kind} {s : String} (h : Spells k s.toList) : IsLine s := by
  intro hmem
  have hlayout := h.isLayout_eq_false '\n' hmem
  rw [isLayout_newline] at hlayout
  cases hlayout

theorem isLine_of_mem_tokensOf {source : String} {t : Token} (ht : t ∈ tokensOf source)
    (hproper : t.Proper) : IsLine t.text := by
  rcases spells_of_mem_tokensOf ht with h | h | h
  · exact absurd h hproper.kind_ne_finish
  · exact absurd h hproper.kind_ne_unknown
  · exact h.isLine

/-! ### Trees of derivations -/

mutual

theorem Phrase.legible : ∀ {s : Symbol} (p : Phrase s), (∀ t ∈ p.yield, IsLine t.text) →
    p.tree.Legible
  | _, .plain s, h => s.legible h
  | _, .compared l p r, h => by
    rw [Phrase.yield, List.forall_mem_append, List.forall_mem_cons] at h
    exact ⟨l.legible h.1, r.legible h.2.2⟩
  | _, .chain first more, h => by
    rw [Phrase.yield, List.forall_mem_append] at h
    exact more.legible h.2 (first.legible h.1)
  | _, .bare f, h => f.legible h
  | _, .negated p f, h => by
    rw [Phrase.yield, List.forall_mem_cons] at h
    exact f.legible h.2
  | _, .alone b, h => b.legible h
  | _, .raised b p e, h => by
    rw [Phrase.yield, List.forall_mem_append, List.forall_mem_cons] at h
    exact ⟨b.legible h.1, e.legible h.2.2⟩
  | _, .applied f _ p e, h => by
    rw [Phrase.yield, List.forall_mem_cons] at h
    exact e.legible h.2
  | _, .name id, h => by
    rw [Phrase.yield, List.forall_mem_singleton] at h
    exact h
  | _, .number n _, _ => n.exists_value_eq
  | _, .group p e q, h => by
    rw [Phrase.yield, List.forall_mem_cons, List.forall_mem_append] at h
    exact e.legible h.2.1

theorem Links.legible : ∀ {t : Tier} (m : Links t) {left : Expr}, (∀ t ∈ m.yield, IsLine t.text) →
    left.Legible → (m.onto left).Legible
  | _, .done, _, _, hleft => hleft
  | _, .link op _ p e more, _, h, hleft => by
    rw [Links.yield, List.forall_mem_cons, List.forall_mem_append] at h
    exact more.legible h.2.2 ⟨hleft, e.legible h.2.1⟩

end

theorem Clause.legible (s : Clause) (h : ∀ t ∈ s.yield, IsLine t.text) : s.tree.Legible := by
  cases s with
  | declaration p name q e =>
    simp only [Clause.yield, List.forall_mem_cons] at h
    exact ⟨h.2.1, e.legible h.2.2.2⟩
  | assignment target q e =>
    simp only [Clause.yield, List.forall_mem_cons] at h
    exact ⟨h.1, e.legible h.2.2⟩
  | print p e =>
    simp only [Clause.yield, List.forall_mem_cons] at h
    exact e.legible h.2

/-- The program of a derivation is legible if the texts of its tokens stand on one line each. -/
theorem Derivation.legible (d : Derivation) (h : ∀ t ∈ d.yield, IsLine t.text) :
    d.tree.Legible := by
  intro s hs
  obtain ⟨c, hc, rfl⟩ := List.mem_map.mp hs
  exact c.legible fun t ht => h t (List.mem_flatMap.mpr ⟨c, hc, ht⟩)

namespace Program

theorem legible_of_ofTokensWithin {limit : Nat} {source : String} {p : Program}
    (h : ofTokensWithin limit (tokensOf source) = .ok p) : p.Legible := by
  obtain ⟨d, rest, rfl, -, htokens, -⟩ :=
    Derivation.of_accepted (fun t ht => wellFormed_of_mem_tokensOf ht) h
  refine d.legible fun t ht => ?_
  have hmem : t ∈ tokensOf source := htokens ▸ List.mem_append_left rest ht
  exact isLine_of_mem_tokensOf hmem (d.proper t ht)

theorem legible_of_ofText {source : String} {p : Program} (h : ofText source = .ok p) :
    p.Legible := legible_of_ofTokensWithin h

/-- **A picture shows all of a program but its places.** Two programs that are read have the same
picture if and only if they are the same but for their places. -/
theorem picture_eq_iff (source source' : String) (p q : Program) (hp : ofText source = .ok p)
    (hq : ofText source' = .ok q) :
    p.picture = q.picture ↔ (Node.program p).sameTree (.program q) = true :=
  picture_eq_iff_of_legible (legible_of_ofText hp) (legible_of_ofText hq)

/-- Parentheses, comments and zeros at the end of a fraction are not seen in a picture, but the value
of a number is. -/
theorem picture_eq_iff_of_half :
    ∃ p q r : Program, ofText "let x = 0.5" = .ok p ∧
      ofText "let x = // half\n(0.50)" = .ok q ∧ ofText "let x = 0.25" = .ok r ∧
      p ≠ q ∧ p.picture = q.picture ∧ p.picture ≠ r.picture := by
  let half (p : Place) : Expr := .literal (.signed false (.ofPlace (1022 * bandSize))) p
  let quarter (p : Place) : Expr := .literal (.signed false (.ofPlace (1021 * bandSize))) p
  let p : Program := ⟨[.declaration "x" (half ⟨1, 9⟩) ⟨1, 1⟩], ⟨1, 1⟩⟩
  let q : Program := ⟨[.declaration "x" (half ⟨2, 2⟩) ⟨1, 1⟩], ⟨1, 1⟩⟩
  let r : Program := ⟨[.declaration "x" (quarter ⟨1, 9⟩) ⟨1, 1⟩], ⟨1, 1⟩⟩
  have hp : ofText "let x = 0.5" = .ok p := by decide +kernel
  have hq : ofText "let x = // half\n(0.50)" = .ok q := by decide +kernel
  have hr : ofText "let x = 0.25" = .ok r := by decide +kernel
  refine ⟨p, q, r, hp, hq, hr, by decide +kernel,
    (picture_eq_iff _ _ p q hp hq).mpr (by decide +kernel), fun h => ?_⟩
  have hsame := (picture_eq_iff _ _ p r hp hr).mp h
  revert hsame
  decide +kernel

end Program

end AelSyntax
