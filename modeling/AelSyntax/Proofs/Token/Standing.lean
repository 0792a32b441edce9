import AelSyntax.Proofs.Token.Decomposition
import Mathlib.Tactic.Common

/-! # Tokens stand in their text

The place of a token is one of the text: its line is among the lines of the text, and its column is
one of that line or the one behind its last (`Place.ExistsIn`). There the text goes on with that of
the token, or it ends if the token is the end of the text (`Token.StandsIn`). The end comes last and
nowhere else (`tokensFrom_eq_append_finish`).

All characters of a text can be read one by one: no step on the way fails (`Reader.Reads`). -/

namespace AelSyntax

open AelSyntax.Text

/-! ### Places of a text -/

/-- A place exists in a text: the text has its line, and the line has its column or ends there. -/
def Place.ExistsIn (p : Place) (cs : List Char) : Prop :=
  1 ≤ p.line ∧ p.line ≤ 1 + cs.count '\n' ∧
    ∃ l, (cs.splitOn '\n')[(p.line - 1).toNat]? = some l ∧ 1 ≤ p.column ∧ p.column ≤ 1 + l.length

/-- The line of an offset holds what stands between the last newline and the offset. -/
theorem exists_line : ∀ before rest : List Char,
    ∃ l, ((before ++ rest).splitOn '\n')[before.count '\n']? = some l ∧
      (before.reverse.takeWhile fun c => c ≠ '\n').length ≤ l.length
  | [], rest => by
    obtain ⟨l, ls, hl⟩ := List.exists_cons_of_ne_nil (List.splitOn_ne_nil '\n' rest)
    exact ⟨l, by simp [hl], by simp⟩
  | c :: before, rest => by
    obtain ⟨l, hl, hlen⟩ := exists_line before rest
    have hrev : (c :: before).reverse = before.reverse ++ [c] := List.reverse_cons
    rw [List.cons_append, List.splitOn_cons_eq_if_modifyHead, hrev, List.takeWhile_append]
    by_cases hc : c = '\n'
    · subst hc
      refine ⟨l, by simp [hl], ?_⟩
      split_ifs with hall
      · rw [hall, List.length_reverse] at hlen
        simpa using hlen
      · exact hlen
    · have hbeq : (c == '\n') = false := by simp [hc]
      rw [hbeq, if_neg (by simp), List.count_cons_of_ne hc, List.getElem?_modifyHead, hl]
      by_cases hzero : before.count '\n' = 0
      · refine ⟨c :: l, by simp [hzero], ?_⟩
        split_ifs with hall
        · rw [hall] at hlen
          simpa [hc] using hlen
        · rw [List.length_cons]
          omega
      · -- a newline stands before, so the line begins behind it
        refine ⟨l, by simp [hzero], ?_⟩
        rw [if_neg]
        · exact hlen
        · intro hall
          have hprefix := List.takeWhile_prefix (l := before.reverse) fun c => c ≠ '\n'
          have hself := hprefix.eq_of_length hall
          rw [List.takeWhile_eq_self_iff] at hself
          refine hzero (List.count_eq_zero.mpr fun hmem => ?_)
          simpa using hself '\n' (List.mem_reverse.mpr hmem)

theorem Place.existsIn_ofOffset (cs : List Char) (n : Nat) : (Place.ofOffset cs n).ExistsIn cs := by
  obtain ⟨l, hl, hlen⟩ := exists_line (cs.take n) (cs.drop n)
  rw [List.take_append_drop] at hl
  have hcount : (cs.take n).count '\n' ≤ cs.count '\n' := (List.take_sublist n cs).count_le '\n'
  have hline : (Place.ofOffset cs n).line = 1 + ((cs.take n).count '\n' : Nat) := rfl
  have hcolumn : (Place.ofOffset cs n).column =
      1 + (((cs.take n).reverse.takeWhile fun c => c ≠ '\n').length : Nat) := rfl
  have hindex : ((Place.ofOffset cs n).line - 1).toNat = (cs.take n).count '\n' := by omega
  exact ⟨by omega, by omega, l, by rw [hindex, hl], by omega, by omega⟩

/-! ### Tokens of a text -/

/-- A token stands in a text: at its place the text goes on with that of the token, or it ends there
if the token is the end of the text. -/
def Token.StandsIn (t : Token) (cs : List Char) : Prop :=
  ∃ n ≤ cs.length, t.place = .ofOffset cs n ∧
    (t.kind = .finish ∧ n = cs.length ∨
      t.kind ≠ .finish ∧ t.text ≠ "" ∧ t.text.toList <+: cs.drop n)

theorem Token.StandsIn.existsIn {t : Token} {cs : List Char} (h : t.StandsIn cs) :
    t.place.ExistsIn cs := by
  obtain ⟨n, -, hplace, -⟩ := h
  rw [hplace]
  exact Place.existsIn_ofOffset cs n

theorem standsIn_of_mem_tokensAt : ∀ {cs : List Char} {pieces : List Piece} {last : List Char}
    (before : List Char), Decomposes cs pieces last →
      ∀ t ∈ tokensAt (before ++ cs) before.length pieces, t.StandsIn (before ++ cs)
  | cs, [], last, before, _, t, ht => by
    rw [tokensAt, List.mem_singleton] at ht
    subst ht
    exact ⟨(before ++ cs).length, le_rfl, rfl, .inl ⟨rfl, rfl⟩⟩
  | cs, ⟨gap, lexeme⟩ :: pieces, last, before, ⟨rest, hcs, _, hlexeme, hrest⟩, t, ht => by
    subst hcs
    rw [tokensAt, List.mem_cons] at ht
    rcases ht with rfl | ht
    · refine ⟨before.length + gap.length, ?_, rfl, .inr ⟨hlexeme.kind_ne_finish, ?_, ?_⟩⟩
      · simp only [List.length_append]
        omega
      · intro hempty
        exact hlexeme.chars_ne_nil (String.ofList_eq_empty_iff.mp hempty)
      · rw [← List.length_append, ← List.append_assoc, List.drop_left, String.toList_ofList]
        exact List.prefix_append _ _
    · have ih := standsIn_of_mem_tokensAt (before ++ (gap ++ lexeme.chars)) hrest
      simp only [List.append_assoc, List.length_append] at ih
      rw [Nat.add_assoc] at ht
      exact ih t ht

/-- **Every token of a text stands in it.** -/
theorem standsIn_of_mem_tokensOf {source : String} {t : Token} (ht : t ∈ tokensOf source) :
    t.StandsIn source.toList := by
  rw [tokensOf_eq_tokensAt] at ht
  exact standsIn_of_mem_tokensAt [] (decomposes_cut source.toList) t ht

/-- The place behind a text, past its first gap, its first lexeme and the rest. -/
theorem afterAll_of_eq_cons (p : Place) {cs : List Char} {c : Char} {rest : List Char}
    (h : (splitGap false cs).2 = c :: rest) :
    ((p.afterAll (splitGap false cs).1).afterAll (Lexeme.scan c rest).1.chars).afterAll
      (Lexeme.scan c rest).2 = p.afterAll cs := by
  rw [← Place.afterAll_append, ← Place.afterAll_append, Lexeme.scan_append, ← h, splitGap_append]

/-- The end of a text is its last token and no other one. -/
theorem tokensFrom_eq_append_finish (p : Place) (cs : List Char) :
    ∃ ts, tokensFrom p cs = ts ++ [.finish (p.afterAll cs)] ∧ ∀ t ∈ ts, t.kind ≠ .finish := by
  cases hs : (splitGap false cs).2 with
  | nil =>
    have happ := splitGap_append false cs
    rw [hs, List.append_nil] at happ
    exact ⟨[], by rw [tokensFrom_of_eq_nil p hs, happ]; rfl, by simp⟩
  | cons c rest =>
    have hlt := length_scan_lt_of_splitGap hs
    obtain ⟨ts, hts, hne⟩ := tokensFrom_eq_append_finish
      ((p.afterAll (splitGap false cs).1).afterAll (Lexeme.scan c rest).1.chars)
      (Lexeme.scan c rest).2
    rw [afterAll_of_eq_cons p hs] at hts
    refine ⟨_ :: ts, by rw [tokensFrom_of_eq_cons p hs, hts]; rfl, ?_⟩
    rw [List.forall_mem_cons]
    exact ⟨(Lexeme.isFirstLexeme_scan c rest).kind_ne_finish, hne⟩
termination_by cs.length

/-! ### Reading character by character -/

namespace Reader

/-- Characters are read one by one, and no step fails. -/
inductive Reads : Reader → List Char → Reader → Prop
  | nil (r : Reader) : Reads r [] r
  | cons {r r' r'' : Reader} {c : Char} {cs : List Char} (h : r.next = .ok (c, r'))
    (hcs : Reads r' cs r'') : Reads r (c :: cs) r''

theorem next_of_ahead {r : Reader} {c : Char} {cs : List Char} (h : 0 ≤ r.position)
    (hr : r.ahead = c :: cs) : r.next = .ok (c, r.past [c]) := by
  have hend : ¬ r.atEnd = true := by
    rw [atEnd_iff h, hr]
    simp
  have hchar : r.charAt? r.index = some c := by
    rw [ahead_of_nonneg h] at hr
    rw [index_of_nonneg h, charAt?, if_neg (by omega), ← List.head?_drop, hr]
    rfl
  rw [next, if_neg hend, indexFault?_of_nonneg h, hchar]

/-- What is ahead can be read. -/
theorem reads_past : ∀ {cs rest : List Char} {r : Reader}, 0 ≤ r.position →
    r.ahead = cs ++ rest → r.Reads cs (r.past cs)
  | [], _, r, _, _ => by
    rw [past_nil]
    exact .nil r
  | c :: cs, rest, r, h, hr => by
    have hnext := next_of_ahead h hr
    have hahead : (r.past [c]).ahead = cs ++ rest := ahead_past h (by rw [hr]; rfl)
    have hrest := reads_past (nonneg_past h [c]) hahead
    rw [← past_append, List.singleton_append] at hrest
    exact .cons hnext hrest

end Reader

end AelSyntax
