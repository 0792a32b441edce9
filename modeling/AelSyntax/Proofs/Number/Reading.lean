import AelSyntax.Number.Numeral
import AelSyntax.Proofs.Token.Longest
import Mathlib.Data.List.TakeDrop
import Mathlib.Tactic.Common

/-! # Reading plain numerals

The numbers of the language are digits with or without a fraction. Such a text passes every stage of
`Numeral.read` as it is: it holds neither spaces nor underscores, it has no sign, and it is no word.
It is therefore read as the magnitude nearest to the decimal it writes, without a sign
(`Numeral.read_of_decimal?`). -/

namespace AelSyntax

open AelSyntax.Text

/-- A digit or a point. -/
def IsPlain (c : Char) : Prop := c.isDigit = true ∨ c = '.'

theorem IsPlain.toNat {c : Char} (h : IsPlain c) : c.toNat = 46 ∨ 48 ≤ c.toNat ∧ c.toNat ≤ 57 := by
  rcases h with h | rfl
  · exact .inr (toNat_of_isDigit h)
  · exact .inl rfl

theorem IsPlain.ne_underscore {c : Char} (h : IsPlain c) : c ≠ '_' := by
  rintro rfl
  have := h.toNat
  revert this
  decide

theorem IsPlain.isPlainSpace {c : Char} (h : IsPlain c) : isPlainSpace c = false := by
  rw [Text.isPlainSpace, Bool.or_eq_false_iff, decide_eq_false_iff_not, Bool.and_eq_false_iff]
  constructor
  · rintro rfl
    have := h.toNat
    revert this
    decide
  · right
    rw [decide_eq_false_iff_not]
    intro hle
    have hle' : c.toNat ≤ 13 := UInt32.le_iff_toNat_le.mp hle
    have := h.toNat
    omega

theorem IsNumber.isPlain {cs : List Char} (h : IsNumber cs) : ∀ c ∈ cs, IsPlain c := by
  intro c hc
  rcases h with ⟨-, hds⟩ | ⟨⟨-, hds⟩, ⟨-, hfs⟩⟩
  · exact .inl (hds c hc)
  · rcases List.mem_append.mp hc with hc | hc
    · exact .inl (hds c hc)
    · rcases List.mem_cons.mp hc with hc | hc
      · exact .inr hc
      · exact .inl (hfs c hc)

/-- A run of characters of a class ends where a character of another class follows. -/
theorem span_append_of_head? {p : Char → Bool} {cs rest : List Char} (hcs : ∀ c ∈ cs, p c = true)
    (hrest : ∀ c ∈ rest.head?, p c = false) : (cs ++ rest).span p = (cs, rest) := by
  rw [List.span_eq_takeWhile_dropWhile, List.takeWhile_append_of_pos hcs,
    List.dropWhile_append_of_pos hcs]
  cases rest with
  | nil => simp
  | cons c rest =>
    have hc : ¬ p c = true := by rw [hrest c rfl]; simp
    rw [List.takeWhile_cons_of_neg hc, List.dropWhile_cons_of_neg hc, List.append_nil]

namespace Numeral

theorem mapM_plainChar? : ∀ {cs : List Char}, (∀ c ∈ cs, IsPlain c) → cs.mapM plainChar? = some cs
  | [], _ => rfl
  | c :: cs, h => by
    have hc : c.toNat < 127 := by have := (h c (by simp)).toNat; omega
    rw [List.mapM_cons, mapM_plainChar? fun d hd => h d (List.mem_cons_of_mem _ hd), plainChar?,
      if_pos hc]
    rfl

theorem withoutUnderscores_of_isPlain : ∀ {cs : List Char} (afterDigit : Bool),
    (∀ c ∈ cs, IsPlain c) → withoutUnderscores afterDigit cs = some cs
  | [], _, _ => rfl
  | c :: cs, _, h => by
    rw [withoutUnderscores, if_neg (h c (by simp)).ne_underscore,
      withoutUnderscores_of_isPlain _ fun d hd => h d (List.mem_cons_of_mem _ hd)]
    rfl

theorem dropWhile_isPlainSpace {cs : List Char} (h : ∀ c ∈ cs, IsPlain c) :
    cs.dropWhile isPlainSpace = cs := by
  cases cs with
  | nil => rfl
  | cons c cs =>
    rw [List.dropWhile_cons_of_neg]
    rw [(h c (by simp)).isPlainSpace]
    simp

theorem trimBoth_of_isPlain {cs : List Char} (h : ∀ c ∈ cs, IsPlain c) :
    trimBoth isPlainSpace cs = cs := by
  rw [trimBoth, dropWhile_isPlainSpace h,
    dropWhile_isPlainSpace fun c hc => h c (List.mem_reverse.mp hc), List.reverse_reverse]

theorem takeSign_of_isDigit {d : Char} (ds : List Char) (hd : d.isDigit = true) :
    takeSign (d :: ds) = (false, d :: ds) := by
  unfold takeSign
  split
  · next h => cases h; cases hd
  · next h => cases h; cases hd
  · rfl

theorem toLower_of_isPlain {c : Char} (hc : IsPlain c) : c.toLower = c := by
  refine dif_neg ?_
  rintro ⟨hge, -⟩
  have : 65 ≤ c.toNat := UInt32.le_iff_toNat_le.mp hge
  have := hc.toNat
  omega

theorem word?_of_isPlain (negative : Bool) {c : Char} (cs : List Char) (hc : IsPlain c) :
    word? negative (c :: cs) = none := by
  have hne : ∀ {d : Char} {ds : List Char}, ¬ (d.toNat = 46 ∨ 48 ≤ d.toNat ∧ d.toNat ≤ 57) →
      String.ofList ((c :: cs).map Char.toLower) ≠ String.ofList (d :: ds) := by
    intro d ds hd heq
    have hlist := String.ofList_injective heq
    rw [List.map_cons, toLower_of_isPlain hc, List.cons.injEq] at hlist
    exact hd (hlist.1 ▸ hc.toNat)
  unfold word?
  split
  · next h => exact absurd h (hne (by decide))
  · next h => exact absurd h (hne (by decide))
  · next h => exact absurd h (hne (by decide))
  · rfl

/-- Digits, and an exponent if there is one. -/
theorem decimal?_append (ds rest : List Char) {e : ℤ} (hne : ds ≠ [])
    (hds : ∀ c ∈ ds, c.isDigit = true) (hrest : ∀ c ∈ rest.head?, c.isDigit = false ∧ c ≠ '.')
    (he : exponent? rest = some e) : decimal? (ds ++ rest) = some ⟨digitsValue ds, e⟩ := by
  have hspan := span_append_of_head? hds fun c hc => (hrest c hc).1
  have hfraction : takeFraction rest = ([], rest) := by
    unfold takeFraction
    split
    · exact absurd rfl (hrest '.' rfl).2
    · rfl
  rw [decimal?, hspan]
  dsimp only
  rw [hfraction, he]
  simp [hne]

/-- Digits, a point and digits, and an exponent if there is one. -/
theorem decimal?_append_point (ds fs rest : List Char) {e : ℤ} (hne : ds ≠ [])
    (hds : ∀ c ∈ ds, c.isDigit = true) (hfs : ∀ c ∈ fs, c.isDigit = true)
    (hrest : ∀ c ∈ rest.head?, c.isDigit = false) (he : exponent? rest = some e) :
    decimal? (ds ++ '.' :: (fs ++ rest)) = some ⟨digitsValue (ds ++ fs), e - fs.length⟩ := by
  have hspan := span_append_of_head? hds (show ∀ c ∈ ('.' :: (fs ++ rest)).head?, _ by simp)
  have hfraction : takeFraction ('.' :: (fs ++ rest)) = (fs, rest) := span_append_of_head? hfs hrest
  rw [decimal?, hspan]
  dsimp only
  rw [hfraction, he]
  simp [hne]

theorem decimal?_digits {ds : List Char} (hne : ds ≠ []) (hds : ∀ c ∈ ds, c.isDigit = true) :
    decimal? ds = some ⟨digitsValue ds, 0⟩ := by
  have h := decimal?_append ds [] hne hds (by simp) rfl
  rwa [List.append_nil] at h

theorem decimal?_point (ds fs : List Char) (hne : ds ≠ []) (hds : ∀ c ∈ ds, c.isDigit = true)
    (hfs : ∀ c ∈ fs, c.isDigit = true) :
    decimal? (ds ++ '.' :: fs) = some ⟨digitsValue (ds ++ fs), -fs.length⟩ := by
  have h := decimal?_append_point ds fs [] hne hds hfs (by simp) rfl
  rwa [List.append_nil, Int.zero_sub] at h

theorem decimal?_of_isNumber {cs : List Char} (h : IsNumber cs) : ∃ d, decimal? cs = some d := by
  rcases h with ⟨hne, hds⟩ | ⟨⟨hne, hds⟩, ⟨-, hfs⟩⟩
  · exact ⟨_, decimal?_digits hne hds⟩
  · exact ⟨_, decimal?_point _ _ hne hds hfs⟩

/-- **A plain numeral is read as the magnitude nearest to its decimal**, without a sign. -/
theorem read_of_decimal? {text : String} (h : IsNumber text.toList) {d : Decimal}
    (hd : decimal? text.toList = some d) : read text = some (.signed false d.nearest) := by
  obtain ⟨c, cs, hcs, hc⟩ := h.exists_cons
  rw [read, mapM_plainChar? h.isPlain]
  show (withoutUnderscores false (trimBoth isPlainSpace text.toList) >>= _) = _
  rw [trimBoth_of_isPlain h.isPlain, withoutUnderscores_of_isPlain _ h.isPlain]
  show unsigned? (takeSign text.toList).1 (takeSign text.toList).2 = _
  rw [hcs, takeSign_of_isDigit cs hc, unsigned?, word?_of_isPlain _ cs (.inl hc), ← hcs, hd]
  rfl

theorem read_of_isNumber {text : String} (h : IsNumber text.toList) :
    ∃ m, read text = some (.signed false m) := by
  obtain ⟨d, hd⟩ := decimal?_of_isNumber h
  exact ⟨d.nearest, read_of_decimal? h hd⟩

theorem read_digits {ds : List Char} (hds : IsDigits ds) :
    read (String.ofList ds) = some (.signed false (Decimal.nearest ⟨digitsValue ds, 0⟩)) := by
  have hread := decimal?_digits hds.1 hds.2
  rw [← String.toList_ofList (l := ds)] at hds hread
  rw [read_of_decimal? (.whole hds) hread, String.toList_ofList]

end Numeral

end AelSyntax
