import AelSyntax.Proofs.Token.Decomposition
import Mathlib.Tactic.Common

/-! # The order of tokens

Reading a character leads to a later place, and every token is read from at least one. So the places
of the tokens of a text increase strictly (`tokensOf_pairwise`), and a token is known from its
place (`place_ne_of_tokensOf`). -/

namespace AelSyntax

/-! ### Places -/

/-- A place comes before another one: on an earlier line, or in an earlier column of the line. -/
def Place.Before (p q : Place) : Prop := p.line < q.line ∨ p.line = q.line ∧ p.column < q.column

namespace Place

theorem Before.trans {p q r : Place} (h : p.Before q) (h' : q.Before r) : p.Before r := by
  unfold Before at *
  omega

theorem Before.ne {p q : Place} (h : p.Before q) : p ≠ q := by
  rintro rfl
  unfold Before at h
  omega

theorem before_after (p : Place) (c : Char) : p.Before (p.after c) := by
  unfold Before after
  split_ifs
  · exact .inl (by dsimp only; omega)
  · exact .inr ⟨rfl, by dsimp only; omega⟩

theorem before_afterAll (p : Place) {cs : List Char} (h : cs ≠ []) : p.Before (p.afterAll cs) := by
  induction cs generalizing p with
  | nil => exact absurd rfl h
  | cons c cs ih =>
    rw [afterAll_cons]
    by_cases hcs : cs = []
    · rw [hcs, afterAll_nil]
      exact p.before_after c
    · exact (p.before_after c).trans (ih _ hcs)

theorem afterAll_eq_or_before (p : Place) (cs : List Char) :
    p.afterAll cs = p ∨ p.Before (p.afterAll cs) := by
  by_cases hcs : cs = []
  · exact .inl (by rw [hcs, afterAll_nil])
  · exact .inr (p.before_afterAll hcs)

end Place

/-! ### Tokens -/

/-- No token comes before the place from which it is read. -/
theorem placed_not_before : ∀ (pieces : List Piece) (p : Place) (last : List Char),
    (∀ q ∈ pieces, q.lexeme.chars ≠ []) →
      ∀ t ∈ placed p pieces last, t.place = p ∨ p.Before t.place
  | [], p, last, _, t, ht => by
    obtain rfl := List.mem_singleton.mp ht
    exact p.afterAll_eq_or_before last
  | ⟨gap, lexeme⟩ :: pieces, p, last, hne, t, ht => by
    have hgap := p.afterAll_eq_or_before gap
    rcases List.mem_cons.mp ht with rfl | ht
    · exact hgap
    · have hlexeme := (p.afterAll gap).before_afterAll (hne _ List.mem_cons_self)
      have hstart : p.Before ((p.afterAll gap).afterAll lexeme.chars) := by
        rcases hgap with h | h
        · rw [h] at hlexeme ⊢
          exact hlexeme
        · exact h.trans hlexeme
      rcases placed_not_before pieces _ last (fun q hq => hne q (List.mem_cons_of_mem _ hq)) t ht
        with h | h
      · rw [h]
        exact .inr hstart
      · exact .inr (hstart.trans h)

theorem placed_pairwise : ∀ (pieces : List Piece) (p : Place) (last : List Char),
    (∀ q ∈ pieces, q.lexeme.chars ≠ []) →
      (placed p pieces last).Pairwise fun t t' => t.place.Before t'.place
  | [], p, last, _ => List.pairwise_singleton _ _
  | ⟨gap, lexeme⟩ :: pieces, p, last, hne => by
    have htail : ∀ q ∈ pieces, q.lexeme.chars ≠ [] := fun q hq => hne q (List.mem_cons_of_mem _ hq)
    have hlexeme := (p.afterAll gap).before_afterAll (hne _ List.mem_cons_self)
    rw [placed, List.pairwise_cons]
    refine ⟨fun t ht => ?_, placed_pairwise pieces _ last htail⟩
    rcases placed_not_before pieces _ last htail t ht with h | h
    · rw [h]
      exact hlexeme
    · exact hlexeme.trans h

/-- **The places of the tokens of a text increase strictly.** -/
theorem tokensOf_pairwise (source : String) :
    (tokensOf source).Pairwise fun t t' => t.place.Before t'.place :=
  placed_pairwise _ _ _ (decomposes_cut source.toList).chars_ne_nil

theorem place_ne_of_tokensOf {source : String} {before after : List Token} {t : Token}
    (h : tokensOf source = before ++ t :: after) : ∀ t' ∈ before ++ after, t'.place ≠ t.place := by
  have hpair := tokensOf_pairwise source
  rw [h, List.pairwise_append, List.pairwise_cons] at hpair
  obtain ⟨-, ⟨hafter, -⟩, hbefore⟩ := hpair
  intro t' ht'
  rcases List.mem_append.mp ht' with ht' | ht'
  · exact (hbefore t' ht' t List.mem_cons_self).ne
  · exact (hafter t' ht').ne.symm

/-- Tokens of a text at one place are one token. -/
theorem eq_of_place_eq {source : String} {t t' : Token} (ht : t ∈ tokensOf source)
    (ht' : t' ∈ tokensOf source) (h : t.place = t'.place) : t = t' := by
  obtain ⟨before, after, hsource⟩ := List.append_of_mem ht'
  by_contra hne
  refine place_ne_of_tokensOf hsource t ?_ h
  rw [hsource, List.mem_append, List.mem_cons] at ht
  rw [List.mem_append]
  exact ht.imp_right fun h => h.resolve_left hne

theorem before_of_tokensOf {source : String} {before after : List Token} {t t' : Token}
    (h : tokensOf source = before ++ t :: after) (ht' : t' ∈ after) : t.place.Before t'.place := by
  have hpair := tokensOf_pairwise source
  rw [h, List.pairwise_append, List.pairwise_cons] at hpair
  exact hpair.2.1.1 t' ht'

/-- The end of a text is one of its tokens. -/
theorem exists_finish_mem_tokensOf (source : String) : ∃ t ∈ tokensOf source, t.kind = .finish := by
  have hplaced : ∀ (pieces : List Piece) (p : Place) (last : List Char),
      ∃ t ∈ placed p pieces last, t.kind = .finish := by
    intro pieces
    induction pieces with
    | nil => exact fun p last => ⟨_, List.mem_singleton_self _, rfl⟩
    | cons q pieces ih =>
      intro p last
      obtain ⟨t, ht, hk⟩ := ih ((p.afterAll q.gap).afterAll q.lexeme.chars) last
      exact ⟨t, List.mem_cons_of_mem _ ht, hk⟩
  exact hplaced _ _ _

end AelSyntax
