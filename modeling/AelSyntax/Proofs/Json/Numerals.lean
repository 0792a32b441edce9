import AelSyntax.Json.Basic
import AelSyntax.Proofs.Json.Grammar
import AelSyntax.Proofs.Number.Integer
import Mathlib.Tactic.Common

/-! # Numbers in JSON

An integer is written as a numeral of digits alone, a finite number as one with a fraction or an
exponent (`IsReal`). So the numeral says which of the two it was, and is read as the number
(`number?_toString`, `number?_writtenReal`). The words for infinity and for no number are names that
the standard does not have: what is written for a number is a scalar of the standard if and only if
the number is finite (`isScalar_writtenReal_iff`). -/

namespace AelSyntax

/-- The number is neither infinite nor no number. -/
def Binary64.IsFinite : Binary64 → Prop
  | nan => False
  | signed _ m => m.isInfinite = false

namespace Json

open Numeral NumberStyle

/-! ### Integers -/

theorem exists_toDigits_eq_cons {n : ℕ} (hn : 0 < n) :
    ∃ d ds, Nat.toDigits 10 n = d :: ds ∧ d ≠ '0' := by
  induction n using Nat.strongRecOn with
  | ind n ih =>
    by_cases hlt : n < 10
    · have hdigit : ∀ n < 10, 0 < n → n.digitChar ≠ '0' := by decide
      exact ⟨n.digitChar, [], Nat.toDigits_of_lt_base hlt, hdigit n hlt hn⟩
    · obtain ⟨d, ds, hds, hd⟩ := ih (n / 10) (by omega) (by omega)
      refine ⟨d, ds ++ [(n % 10).digitChar], ?_, hd⟩
      rw [Nat.toDigits_of_base_le (by decide) (by omega), hds, List.cons_append]

theorem isWhole_toDigits (n : ℕ) : IsWhole (Nat.toDigits 10 n) := by
  have hdigits := isDigit_of_mem_toDigits (n := n)
  rcases Nat.eq_zero_or_pos n with rfl | hn
  · exact .zero
  · obtain ⟨d, ds, hds, hd⟩ := exists_toDigits_eq_cons hn
    rw [hds, List.forall_mem_cons] at hdigits
    rw [hds]
    exact .digits hdigits.1 hd hdigits.2

theorem isNumeral_toString (n : ℤ) : IsNumeral (toString n).toList := by
  have hsign : (if n < 0 then ['-'] else []) ∈ [[], ['-']] := by split_ifs <;> decide
  have h := IsNumeral.mk hsign (isWhole_toDigits n.natAbs) .none .none
  rwa [List.append_nil, List.append_nil, ← toList_toString] at h

/-! ### Reals -/

/-- A numeral without a sign that has a fraction or an exponent. -/
inductive IsReal : List Char → Prop
  | mk {whole fraction exponent : List Char} (hwhole : IsWhole whole)
    (hfraction : IsFraction fraction) (hexponent : IsExponent exponent)
    (hne : fraction ++ exponent ≠ []) :
    IsReal (whole ++ (fraction ++ exponent))

theorem IsReal.isNumeral_withSign {cs : List Char} (h : IsReal cs) (negative : Bool) :
    IsNumeral (Binary64.withSign negative cs) := by
  obtain ⟨hwhole, hfraction, hexponent, -⟩ := h
  have hnone : [] ∈ [[], ['-']] := by decide
  have hminus : ['-'] ∈ [[], ['-']] := by decide
  cases negative with
  | false => exact .mk hnone hwhole hfraction hexponent
  | true => exact .mk hminus hwhole hfraction hexponent

/-- The point or the letter of the exponent tells a real from an integer. -/
theorem IsReal.all_isDigit {cs : List Char} (h : IsReal cs) : cs.all Char.isDigit = false := by
  obtain ⟨-, hfraction, hexponent, hne⟩ := h
  rw [List.all_eq_false]
  cases hfraction with
  | some => exact ⟨'.', by simp, by decide⟩
  | none =>
    cases hexponent with
    | none => exact absurd rfl hne
    | @some e _ _ he =>
      refine ⟨e, by simp, ?_⟩
      rcases he with rfl | rfl <;> decide

theorem IsReal.exists_cons {cs : List Char} (h : IsReal cs) :
    ∃ d ds, cs = d :: ds ∧ d.isDigit = true := by
  obtain ⟨hwhole, -, -, -⟩ := h
  cases hwhole with
  | zero => exact ⟨_, _, rfl, by decide⟩
  | digits hd => exact ⟨_, _, rfl, hd⟩

/-- The fraction of a number that has none. -/
theorem isFraction_zero : IsFraction ['.', '0'] := .some ⟨by simp, by simp⟩

/-- Digits that do not begin with zero. -/
def IsLeading (ds : List Char) : Prop := IsDigits ds ∧ ds.head? ≠ some '0'

theorem IsLeading.isWhole {ds : List Char} (h : IsLeading ds) : IsWhole ds := by
  obtain ⟨⟨hne, hds⟩, hzero⟩ := h
  obtain ⟨d, ds, rfl⟩ := List.exists_cons_of_ne_nil hne
  rw [List.forall_mem_cons] at hds
  exact .digits hds.1 (fun hd => hzero (congrArg some hd)) hds.2

theorem IsLeading.append {ds es : List Char} (h : IsLeading ds) (hes : ∀ c ∈ es, c.isDigit = true) :
    IsLeading (ds ++ es) := by
  obtain ⟨⟨hne, hds⟩, hzero⟩ := h
  refine ⟨⟨by simp [hne], List.forall_mem_append.mpr ⟨hds, hes⟩⟩, ?_⟩
  obtain ⟨d, ds, rfl⟩ := List.exists_cons_of_ne_nil hne
  exact hzero

theorem IsLeading.take {ds : List Char} (h : IsLeading ds) {n : ℕ} (hn : 0 < n) :
    IsLeading (ds.take n) := by
  obtain ⟨⟨hne, hds⟩, hzero⟩ := h
  refine ⟨⟨?_, fun c hc => hds c (List.mem_of_mem_take hc)⟩, ?_⟩
  · rw [Ne, List.take_eq_nil_iff, not_or]
    exact ⟨hn.ne', hne⟩
  · rwa [List.head?_take, if_neg hn.ne']

theorem isReal_positional {ds : List Char} (h : IsLeading ds) (point : ℤ) :
    IsReal (positional ds point) := by
  rw [positional]
  dsimp only
  split_ifs with hpoint hlength
  · -- the point stands before the digits
    have hfraction : IsDigits (List.replicate (-point).toNat '0' ++ ds) :=
      ⟨by simp [h.1.1], List.forall_mem_append.mpr ⟨isDigit_of_mem_zeros, h.1.2⟩⟩
    have hreal := IsReal.mk .zero (.some hfraction) .none (by simp)
    rwa [List.append_nil, List.singleton_append] at hreal
  · -- the point stands behind them
    have hwhole := (h.append (isDigit_of_mem_zeros (n := point.toNat - ds.length))).isWhole
    have hreal := IsReal.mk hwhole isFraction_zero .none (by decide)
    rwa [List.append_nil] at hreal
  · -- the point stands among them
    have hne : ds.drop point.toNat ≠ [] := by
      rw [Ne, List.drop_eq_nil_iff]
      exact hlength
    have hfraction : IsDigits (ds.drop point.toNat) :=
      ⟨hne, fun c hc => h.1.2 c (List.mem_of_mem_drop hc)⟩
    have hwhole : IsWhole (ds.take point.toNat) := (h.take (by omega)).isWhole
    have hreal := IsReal.mk hwhole (.some hfraction) .none (by simp)
    rwa [List.append_nil] at hreal

theorem isReal_scientific (style : NumberStyle) {ds : List Char} (h : IsLeading ds) (e : ℤ) :
    IsReal (style.scientific ds e) := by
  let zeros := List.replicate (style.exponentWidth - (Nat.toDigits 10 e.natAbs).length) '0'
  have hsign : [if e < 0 then '-' else '+'] ∈ [[], ['-'], ['+']] := by split_ifs <;> decide
  have hdigits : IsDigits (zeros ++ Nat.toDigits 10 e.natAbs) :=
    ⟨by simp [Nat.toDigits_ne_nil],
      List.forall_mem_append.mpr ⟨isDigit_of_mem_zeros, isDigit_of_mem_toDigits⟩⟩
  have hexponent := IsExponent.some (.inl rfl) hsign hdigits
  rw [scientific]
  by_cases hlength : 1 < ds.length
  · have hfraction : IsDigits (ds.drop 1) :=
      ⟨by rw [Ne, List.drop_eq_nil_iff]; omega, fun c hc => h.1.2 c (List.mem_of_mem_drop hc)⟩
    have hreal := IsReal.mk (h.take Nat.one_pos).isWhole (.some hfraction) hexponent (by simp)
    rw [← List.append_assoc] at hreal
    rwa [if_pos hlength]
  · rw [if_neg hlength]
    exact .mk h.isWhole .none hexponent (by simp)

theorem isReal_decimal (style : NumberStyle) {d : Decimal} (hd : 0 < d.coefficient) :
    IsReal (style.decimal d) := by
  obtain ⟨k, hk⟩ := exists_eq_append_zeros (Nat.toDigits 10 d.coefficient)
  obtain ⟨c, cs, hcs, hc⟩ := exists_toDigits_eq_cons hd
  have hdigits := isDigit_of_mem_toDigits (n := d.coefficient)
  rw [decimal]
  generalize ((Nat.toDigits 10 d.coefficient).reverse.dropWhile (· = '0')).reverse = ds at hk ⊢
  rw [hk] at hcs hdigits
  have hleading : IsLeading ds := by
    cases ds with
    | nil =>
      have hmem : c ∈ List.replicate k '0' := by
        rw [List.nil_append] at hcs
        rw [hcs]
        exact List.mem_cons_self
      exact absurd (List.eq_of_mem_replicate hmem) hc
    | cons d ds =>
      obtain ⟨rfl, -⟩ := List.cons.inj hcs
      exact ⟨⟨List.cons_ne_nil _ _, (List.forall_mem_append.mp hdigits).1⟩,
        fun hhead => hc (Option.some.inj hhead)⟩
  split_ifs
  · exact isReal_positional hleading _
  · exact isReal_scientific style hleading _

theorem isReal_magnitude (style : NumberStyle) {m : Magnitude} (hm : m.isInfinite = false) :
    IsReal (style.magnitude m) := by
  rw [magnitude, if_neg (by simp [hm] : ¬ m.isInfinite = true)]
  split_ifs with hzero
  · exact .mk .zero isFraction_zero .none (by decide)
  · exact isReal_decimal style (Decimal.coefficient_shortest_pos hm hzero)

/-! ### Written numbers -/

theorem writtenReal_signed (negative : Bool) (m : Magnitude) :
    writtenReal (.signed negative m) = Binary64.withSign negative
      (if m.isInfinite then "Infinity".toList else NumberStyle.standard.magnitude m) := rfl

theorem isScalar_toString (names : List String) (n : ℤ) : IsScalar names (toString n).toList :=
  .inl (isNumeral_toString n)

theorem IsNumeral.any_isDigit {cs : List Char} (h : IsNumeral cs) : cs.any Char.isDigit = true := by
  obtain ⟨-, hwhole, -, -⟩ := h
  rw [List.any_eq_true]
  cases hwhole with
  | zero => exact ⟨'0', by simp, by decide⟩
  | @digits d _ hd => exact ⟨d, by simp, hd⟩

/-- A word of the extended names is no scalar of the standard. -/
theorem not_isScalar_standardNames {word : List Char}
    (h : word ∈ ["NaN".toList, "Infinity".toList, "-Infinity".toList]) :
    ¬ IsScalar standardNames word := by
  have hdigit : ∀ w ∈ ["NaN".toList, "Infinity".toList, "-Infinity".toList],
      w.any Char.isDigit = false := by decide
  have hname : ∀ w ∈ ["NaN".toList, "Infinity".toList, "-Infinity".toList],
      String.ofList w ∉ standardNames := by decide
  rintro (hnumeral | hmem)
  · have hany := hnumeral.any_isDigit
    rw [hdigit word h] at hany
    cases hany
  · exact hname word h hmem

/-- **What is written for a number is a scalar of the standard** if and only if the number is
finite. -/
theorem isScalar_writtenReal_iff {x : Binary64} :
    IsScalar standardNames (writtenReal x) ↔ x.IsFinite := by
  cases x with
  | nan => exact iff_of_false (not_isScalar_standardNames (by decide)) not_false
  | signed negative m =>
    rw [writtenReal_signed, Binary64.IsFinite]
    split_ifs with hm
    · refine iff_of_false (not_isScalar_standardNames ?_) (by simp [hm])
      cases negative <;> decide
    · have hfinite : m.isInfinite = false := by simpa using hm
      exact iff_of_true (.inl ((isReal_magnitude _ hfinite).isNumeral_withSign _)) hfinite

theorem isScalar_writtenReal_extended (x : Binary64) :
    IsScalar extendedNames (writtenReal x) := by
  cases x with
  | nan => exact .inr (by decide)
  | signed negative m =>
    rw [writtenReal_signed]
    split_ifs with hm
    · right
      cases negative <;> decide
    · have hfinite : m.isInfinite = false := by simpa using hm
      exact .inl ((isReal_magnitude _ hfinite).isNumeral_withSign _)

/-! ### Reading -/

/-- The number of a numeral: an integer if there are digits alone, and else the nearest real. -/
def number? (cs : List Char) : Option Json :=
  match integer? cs with
  | some n => some (.integer n)
  | none =>
    let (negative, cs) := takeSign cs
    (unsigned? negative cs).map .real

/-- **The numeral of an integer is read as the integer.** -/
theorem number?_toString (n : ℤ) : number? (toString n).toList = some (.integer n) := by
  rw [number?, integer?_toString]

theorem takeSign_withSign (negative : Bool) {c : Char} (cs : List Char) (hminus : c ≠ '-')
    (hplus : c ≠ '+') : takeSign (Binary64.withSign negative (c :: cs)) = (negative, c :: cs) := by
  cases negative with
  | false =>
    rw [Binary64.withSign, if_neg Bool.false_ne_true, takeSign.eq_def]
    split
    · next h => exact absurd (List.cons.inj h).1 hminus
    · next h => exact absurd (List.cons.inj h).1 hplus
    · rfl
  | true => rfl

/-- What is behind the sign is read as a real if it is not made of digits alone. -/
theorem number?_withSign {negative : Bool} {c : Char} {cs : List Char} {x : Binary64}
    (hminus : c ≠ '-') (hplus : c ≠ '+') (hreal : (c :: cs).all Char.isDigit = false)
    (hx : unsigned? negative (c :: cs) = some x) :
    number? (Binary64.withSign negative (c :: cs)) = some (.real x) := by
  have hsign := takeSign_withSign negative cs hminus hplus
  have hinteger : integer? (Binary64.withSign negative (c :: cs)) = none := by
    rw [integer?, hsign]
    simp only [hreal, Bool.and_false, Bool.false_eq_true, if_false]
  rw [number?, hinteger, hsign]
  simp only [hx, Option.map_some]

/-- **What is written for a number is read as the number.** -/
theorem number?_writtenReal (x : Binary64) : number? (writtenReal x) = some (.real x) := by
  cases x with
  | nan =>
    have hread : unsigned? false ['N', 'a', 'N'] = some .nan := rfl
    have hnumber := number?_withSign (by decide) (by decide) (by decide) hread
    rwa [Binary64.withSign, if_neg Bool.false_ne_true] at hnumber
  | signed negative m =>
    rw [writtenReal_signed]
    split_ifs with hm
    · have hinfinity : m = .infinity := by
        rw [← m.ofPlace_place, eq_of_beq hm]
        rfl
      subst hinfinity
      exact number?_withSign (by decide) (by decide) (by decide) rfl
    · have hfinite : m.isInfinite = false := by simpa using hm
      have hreal := isReal_magnitude NumberStyle.standard hfinite
      have hread := unsigned?_magnitude NumberStyle.standard negative m
      obtain ⟨d, ds, hds, hd⟩ := hreal.exists_cons
      rw [hds] at hread ⊢
      refine number?_withSign ?_ ?_ (hds ▸ hreal.all_isDigit) hread
      · rintro rfl
        cases hd
      · rintro rfl
        cases hd

end Json

end AelSyntax
