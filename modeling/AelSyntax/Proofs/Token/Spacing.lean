import AelSyntax.Proofs.Token.Decomposition
import Mathlib.Tactic.Common

/-! # Lexemes that are written apart

No lexeme holds a layout character. So if behind each of some lexemes the text ends or goes on with
layout, every lexeme is the longest where it stands, and the text falls into these lexemes and the
gaps between them, whatever the gaps are made of (`Spaced.exists_decomposes`). -/

namespace AelSyntax

open AelSyntax.Text

/-- A text ends or goes on with a layout character. -/
def BeginsApart (cs : List Char) : Prop := ∀ c ∈ cs.head?, isLayout c = true

/-- A text of lexemes, written apart, with gaps before, between and behind them. -/
inductive Spaced : List String → List Char → Prop
  | last {gap : List Char} (hgap : IsGap gap []) : Spaced [] gap
  | lexeme {s : String} {ss : List String} {gap rest : List Char}
    (hgap : IsGap gap (s.toList ++ rest)) (hapart : BeginsApart rest) (h : Spaced ss rest) :
    Spaced (s :: ss) (gap ++ (s.toList ++ rest))

/-- Some characters are a lexeme that may stand by itself: they spell their kind, or they are one
character that begins nothing. -/
def StandsAlone (k : Kind) (cs : List Char) : Prop :=
  Spells k cs ∨ k = .unknown ∧ ∃ c, cs = [c] ∧ isLayout c = false ∧ ∀ k' cs', ¬ Spells k' (c :: cs')

theorem isGap_space (rest : List Char) : IsGap [' '] rest := .layout (by decide) (.nil rest)

/-- Lexemes are written apart with one space before each of them. -/
theorem spaced_of_spaces : ∀ ss : List String, Spaced ss (ss.flatMap fun s => ' ' :: s.toList)
  | [] => .last (.nil [])
  | s :: ss => by
    refine .lexeme (isGap_space _) ?_ (spaced_of_spaces ss)
    cases ss with
    | nil => exact fun c hc => by cases hc
    | cons s' ss =>
      intro c hc
      obtain rfl : ' ' = c := Option.some.inj hc
      decide

/-! ### Lexemes hold no layout -/

theorem isLayout_toNat {c : Char} (h : isLayout c = true) : c.toNat ≤ 32 := by
  rw [isLayout, decide_eq_true_eq] at h
  exact UInt32.le_iff_toNat_le.mp h

theorem isLayout_eq_false_of_isDigit {c : Char} (h : c.isDigit = true) : isLayout c = false := by
  by_contra hl
  have := isLayout_toNat (by simpa using hl)
  have := (toNat_of_isDigit h).1
  omega

theorem isLayout_eq_false_of_isWordPart {c : Char} (h : isWordPart c = true) :
    isLayout c = false := by
  rcases Bool.or_eq_true_iff.mp h with h | h
  · by_contra hl
    have := isLayout_toNat (by simpa using hl)
    rw [isLetter_eq_false_of_lt (by omega)] at h
    cases h
  · exact isLayout_eq_false_of_isDigit h

/-- The characters of operators, parentheses and fractions. -/
def marks : List Char := ['.', '=', '+', '-', '*', '/', '%', '(', ')']

theorem mem_marks_of_operatorKind? {cs : List Char} {k : Kind}
    (h : Lexeme.operatorKind? cs = some k) : ∀ c ∈ cs, c ∈ marks := by
  have hall : ∀ p ∈ operatorSpellings, p.2.toList.all marks.contains = true := by decide
  have hcs : cs.all marks.contains = true := by
    simpa only [String.toList_ofList] using hall _ (operatorKind?_eq_some.mp h)
  intro c hc
  exact List.contains_iff_mem.mp (List.all_eq_true.mp hcs c hc)

/-- A lexeme is made of letters, digits and marks. -/
theorem Spells.mem_alphabet {k : Kind} {cs : List Char} (h : Spells k cs) :
    ∀ c ∈ cs, isWordPart c = true ∨ c ∈ marks := by
  have hdigits {ds : List Char} (hds : IsDigits ds) : ∀ c ∈ ds, isWordPart c = true ∨ c ∈ marks :=
    fun c hc => .inl (Bool.or_eq_true_iff.mpr (.inr (hds.2 c hc)))
  cases h with
  | word h =>
    cases cs with
    | nil => exact absurd h id
    | cons c cs =>
      rw [List.forall_mem_cons]
      exact ⟨.inl (Bool.or_eq_true_iff.mpr (.inl h.1)), fun d hd => .inl (h.2 d hd)⟩
  | number h =>
    cases h with
    | whole h => exact hdigits h
    | fraction h hf =>
      rw [List.forall_mem_append, List.forall_mem_cons]
      exact ⟨hdigits h, .inr (by decide), hdigits hf⟩
  | operator h => exact fun c hc => .inr (mem_marks_of_operatorKind? h c hc)

theorem Spells.isLayout_eq_false {k : Kind} {cs : List Char} (h : Spells k cs) :
    ∀ c ∈ cs, isLayout c = false := by
  have hmarks : marks.all (fun c => !isLayout c) = true := by decide
  intro c hc
  rcases h.mem_alphabet c hc with hword | hmark
  · exact isLayout_eq_false_of_isWordPart hword
  · simpa using List.all_eq_true.mp hmarks c hmark

theorem not_mem_of_isLayout {c : Char} (h : isLayout c = true) :
    ∀ k ds, Spells k ds → c ∉ ds := by
  intro k ds hds hmem
  rw [hds.isLayout_eq_false c hmem] at h
  cases h

/-! ### Lexemes that stand alone are found -/

namespace StandsAlone

variable {k : Kind} {cs rest : List Char}

theorem isLayout_eq_false (h : StandsAlone k cs) : ∀ c ∈ cs, isLayout c = false := by
  rcases h with h | ⟨-, c, rfl, hc, -⟩
  · exact h.isLayout_eq_false
  · rw [List.forall_mem_singleton]
    exact hc

theorem ne_nil (h : StandsAlone k cs) : cs ≠ [] := by
  rcases h with h | ⟨-, c, rfl, -⟩
  · exact h.ne_nil
  · simp

theorem kind_eq (h : StandsAlone k cs) {k' : Kind} (h' : Spells k' cs) : k = k' := by
  rcases h with h | ⟨-, c, rfl, -, hnone⟩
  · exact h.kind_unique h'
  · exact absurd h' (hnone k' [])

/-- Whatever is spelled in front of a text does not go beyond a lexeme that is written apart. -/
theorem length_le (hrest : BeginsApart rest) {k' : Kind} {cs' rest' : List Char}
    (happ : cs' ++ rest' = cs ++ rest) (h' : Spells k' cs') : cs'.length ≤ cs.length := by
  rcases List.append_eq_append_iff.mp happ with ⟨as, rfl, -⟩ | ⟨bs, rfl, hbs⟩
  · rw [List.length_append]
    omega
  · cases bs with
    | nil => rw [List.append_nil]
    | cons b bs =>
      have hlayout : isLayout b = true := hrest b (by rw [hbs]; rfl)
      rw [h'.isLayout_eq_false b (List.mem_append_right _ List.mem_cons_self)] at hlayout
      cases hlayout

theorem isFirstLexeme (h : StandsAlone k cs) (hrest : BeginsApart rest) :
    IsFirstLexeme ⟨k, cs⟩ rest := by
  rcases h with h | ⟨rfl, c, rfl, -, hnone⟩
  · exact .inl ⟨h, fun k' cs' rest' happ h' => length_le hrest happ h'⟩
  · refine .inr ⟨rfl, rfl, fun k' cs' rest' happ h' => ?_⟩
    obtain ⟨d, ds, rfl⟩ := List.exists_cons_of_ne_nil h'.ne_nil
    obtain ⟨rfl, -⟩ := List.cons.inj happ
    exact hnone k' ds h'

theorem endsGap (h : StandsAlone k cs) (hrest : BeginsApart rest) : EndsGap (cs ++ rest) := by
  have hlayout := h.isLayout_eq_false
  obtain ⟨c, cs, rfl⟩ := List.exists_cons_of_ne_nil h.ne_nil
  have hcomment : beginsComment (c :: (cs ++ rest)) = false := by
    rw [← Bool.not_eq_true, beginsComment_iff]
    rintro ⟨rfl, htail⟩
    -- no lexeme begins with two slashes, and behind a single one there is layout
    cases cs with
    | nil => exact absurd (hrest '/' htail) (by decide)
    | cons d ds =>
      obtain rfl := Option.some.inj htail
      rcases h with h | ⟨-, e, heq, -⟩
      · have hop := h.of_other (by decide) (by decide)
        obtain rfl := List.length_eq_zero_iff.mp
          (Nat.le_zero.mp (Nat.le_of_succ_le_succ (of_operatorKind?_cons hop).2.2))
        cases hop
      · cases heq
  show belongsToGap false c (cs ++ rest) = false
  rw [belongsToGap, hcomment, hlayout c List.mem_cons_self]
  rfl

end StandsAlone

/-- **A text of lexemes that are written apart falls into them.** -/
theorem Spaced.exists_decomposes {ss : List String} {cs : List Char} (h : Spaced ss cs)
    (hss : ∀ s ∈ ss, ∃ k, StandsAlone k s.toList) :
    ∃ pieces last, Decomposes cs pieces last ∧
      pieces.map (fun p => String.ofList p.lexeme.chars) = ss ∧
      ∀ p ∈ pieces, StandsAlone p.lexeme.kind p.lexeme.chars := by
  induction h with
  | last hgap =>
    exact ⟨[], _, ⟨rfl, isLongestGap_of_endsGap hgap trivial⟩, rfl, by simp⟩
  | @lexeme s ss gap rest hgap hapart _ ih =>
    rw [List.forall_mem_cons] at hss
    obtain ⟨⟨k, hk⟩, hss⟩ := hss
    obtain ⟨pieces, last, hpieces, htexts, halone⟩ := ih hss
    refine ⟨⟨gap, ⟨k, s.toList⟩⟩ :: pieces, last,
      ⟨rest, rfl, ?_, hk.isFirstLexeme hapart, hpieces⟩, ?_, ?_⟩
    · exact isLongestGap_of_endsGap hgap (hk.endsGap hapart)
    · rw [List.map_cons, htexts, show String.ofList s.toList = s from String.ofList_toList]
    · rw [List.forall_mem_cons]
      exact ⟨hk, halone⟩

/-- The tokens of a text of spelled lexemes that are written apart. -/
theorem Spaced.exists_tokensOf {ss : List String} {source : String} (h : Spaced ss source.toList)
    (hss : ∀ s ∈ ss, ∃ k, Spells k s.toList) :
    ∃ ts p, tokensOf source = ts ++ [.finish p] ∧ ts.map Token.text = ss ∧
      ∀ t ∈ ts, Spells t.kind t.text.toList := by
  obtain ⟨pieces, last, hpieces, htexts, halone⟩ :=
    h.exists_decomposes fun s hs => (hss s hs).imp fun _ hk => .inl hk
  have hplaced : ∀ (pieces : List Piece) (p : Place),
      (∀ q ∈ pieces, Spells q.lexeme.kind q.lexeme.chars) →
        ∃ ts p', placed p pieces last = ts ++ [.finish p'] ∧
          ts.map Token.text = pieces.map (fun q => String.ofList q.lexeme.chars) ∧
          ∀ t ∈ ts, Spells t.kind t.text.toList := by
    intro pieces
    induction pieces with
    | nil => exact fun p _ => ⟨[], _, rfl, rfl, by simp⟩
    | cons q pieces ih =>
      intro p hspells
      rw [List.forall_mem_cons] at hspells
      obtain ⟨ts, p', hts, htexts, hall⟩ :=
        ih ((p.afterAll q.gap).afterAll q.lexeme.chars) hspells.2
      refine ⟨⟨q.lexeme.kind, String.ofList q.lexeme.chars, p.afterAll q.gap⟩ :: ts, p', ?_, ?_, ?_⟩
      · rw [placed, hts, List.cons_append]
      · rw [List.map_cons, List.map_cons, htexts]
      · rw [List.forall_mem_cons]
        refine ⟨?_, hall⟩
        rw [String.toList_ofList]
        exact hspells.1
  have hspells : ∀ q ∈ pieces, Spells q.lexeme.kind q.lexeme.chars := by
    intro q hq
    have hmem : String.ofList q.lexeme.chars ∈ ss := by
      rw [← htexts]
      exact List.mem_map_of_mem hq
    obtain ⟨k, hk⟩ := hss _ hmem
    rw [String.toList_ofList] at hk
    rw [(halone q hq).kind_eq hk]
    exact hk
  obtain ⟨ts, p, hts, hmap, hall⟩ := hplaced pieces .start hspells
  refine ⟨ts, p, ?_, hmap.trans htexts, hall⟩
  rw [tokensOf, tokensFrom, hpieces.cut_eq]
  exact hts

end AelSyntax
