import AelSyntax.Number.Written
import AelSyntax.Proofs.Number.Nearest
import AelSyntax.Proofs.Number.Reading

/-! # Reading what is written

The numeral of a decimal may lose the zeros at the end of the coefficient, and zeros may be added
before or behind the digits, but the value stays what it was: the numeral is read as a decimal with
the same nearest magnitude (`NumberStyle.nearest_decimal`). As the shortest decimal of a magnitude is
nearest to no other one, the numeral of a magnitude is read as that magnitude
(`NumberStyle.unsigned?_magnitude`). -/

namespace AelSyntax

namespace Numeral

variable {ds es : List Char}

/-! ### The value of digits -/

theorem digitsValue_eq (ds : List Char) : digitsValue ds = Nat.ofDigitChars 10 ds 0 :=
  Nat.ofDigitChars_eq_foldl.symm

theorem digitsValue_toDigits (n : ℕ) : digitsValue (Nat.toDigits 10 n) = n := by
  rw [digitsValue_eq, Nat.ofDigitChars_ten_toDigits]

theorem digitsValue_append (ds es : List Char) :
    digitsValue (ds ++ es) = digitsValue ds * 10 ^ es.length + digitsValue es := by
  simp only [digitsValue_eq]
  rw [Nat.ofDigitChars_append, Nat.ofDigitChars_eq_ofDigitChars_zero, Nat.mul_comm]

theorem digitsValue_zeros (n : ℕ) : digitsValue (List.replicate n '0') = 0 := by
  rw [digitsValue_eq, Nat.ofDigitChars_replicate_zero, Nat.mul_zero]

theorem digitsValue_zeros_append (n : ℕ) (ds : List Char) :
    digitsValue (List.replicate n '0' ++ ds) = digitsValue ds := by
  rw [digitsValue_append, digitsValue_zeros, Nat.zero_mul, Nat.zero_add]

theorem digitsValue_append_zeros (ds : List Char) (n : ℕ) :
    digitsValue (ds ++ List.replicate n '0') = digitsValue ds * 10 ^ n := by
  rw [digitsValue_append, digitsValue_zeros, List.length_replicate, Nat.add_zero]

theorem isDigit_of_mem_toDigits {n : ℕ} : ∀ c ∈ Nat.toDigits 10 n, c.isDigit = true :=
  fun _ hc => Nat.isDigit_of_mem_toDigits (by decide) le_rfl hc

theorem isDigit_of_mem_zeros {n : ℕ} : ∀ c ∈ List.replicate n '0', c.isDigit = true := by
  intro c hc
  rw [List.eq_of_mem_replicate hc]
  rfl

/-! ### Words -/

theorem isPlain_of_decimal? {c : Char} {cs : List Char} {d : Decimal}
    (h : decimal? (c :: cs) = some d) : IsPlain c := by
  by_contra hc
  obtain ⟨hdigit, hpoint⟩ := not_or.mp hc
  have hspan : (c :: cs).span Char.isDigit = ([], c :: cs) := by
    rw [List.span_eq_takeWhile_dropWhile, List.takeWhile_cons_of_neg hdigit,
      List.dropWhile_cons_of_neg hdigit]
  have hfraction : takeFraction (c :: cs) = ([], c :: cs) := by
    unfold takeFraction
    split
    · next heq => exact absurd (List.cons.inj heq).1 hpoint
    · rfl
  rw [decimal?, hspan] at h
  dsimp only at h
  rw [hfraction] at h
  cases h

/-- What is read as a decimal is no word. -/
theorem unsigned?_of_decimal? {cs : List Char} {d : Decimal} (negative : Bool)
    (h : decimal? cs = some d) : unsigned? negative cs = some (.signed negative d.nearest) := by
  cases cs with
  | nil => cases h
  | cons c cs =>
    rw [unsigned?, word?_of_isPlain negative cs (isPlain_of_decimal? h), h]
    rfl

/-! ### Exponents -/

theorem exponent?_of_digits (hne : es ≠ []) (hes : ∀ c ∈ es, c.isDigit = true) {e : ℤ}
    (hvalue : digitsValue es = e.natAbs) :
    exponent? ('e' :: (if e < 0 then '-' else '+') :: es) = some e := by
  have hall : es.all Char.isDigit = true := List.all_eq_true.mpr hes
  split_ifs with h
  · have hneg : e = -(digitsValue es : ℤ) := by omega
    rw [hneg]
    simp [exponent?, takeSign, hne, hall]
  · have hpos : e = digitsValue es := by omega
    rw [hpos]
    simp [exponent?, takeSign, hne, hall]

end Numeral

namespace NumberStyle

open Numeral

variable {ds : List Char}

/-- Digits with a point among, before or behind them are read with the point in its place. -/
theorem nearest_positional (hds : ∀ c ∈ ds, c.isDigit = true) (hpos : 0 < digitsValue ds)
    (point : ℤ) : ∃ d, decimal? (positional ds point) = some d ∧
      d.nearest = Decimal.nearest ⟨digitsValue ds, point - ds.length⟩ := by
  have hne : ds ≠ [] := by rintro rfl; exact lt_irrefl 0 hpos
  rw [positional]
  dsimp only
  split_ifs with hpoint hlength
  · -- zeros and the point come before the digits
    have hfs : ∀ c ∈ List.replicate (-point).toNat '0' ++ ds, c.isDigit = true :=
      List.forall_mem_append.mpr ⟨isDigit_of_mem_zeros, hds⟩
    have hvalue : digitsValue ('0' :: (List.replicate (-point).toNat '0' ++ ds)) =
        digitsValue ds :=
      (digitsValue_zeros_append 1 _).trans (digitsValue_zeros_append _ ds)
    refine ⟨_, decimal?_point ['0'] _ (by simp) (by simp) hfs, ?_⟩
    rw [List.singleton_append, hvalue, List.length_append, List.length_replicate]
    congr 2
    push_cast
    omega
  · -- zeros and the point come behind the digits
    have hzeros : ∀ c ∈ ds ++ List.replicate (point.toNat - ds.length) '0', c.isDigit = true :=
      List.forall_mem_append.mpr ⟨hds, isDigit_of_mem_zeros⟩
    have hvalue : digitsValue (ds ++ List.replicate (point.toNat - ds.length) '0' ++ ['0']) =
        digitsValue ds * 10 ^ (point.toNat - ds.length + 1) := by
      rw [List.append_assoc, ← List.replicate_succ', digitsValue_append_zeros]
    refine ⟨_, decimal?_point _ ['0'] (by simp [hne]) hzeros (by simp), ?_⟩
    rw [hvalue, ← Decimal.nearest_mul_pow hpos _ (point.toNat - ds.length + 1)]
    congr 2
    rw [List.length_singleton]
    push_cast
    omega
  · -- the point comes among the digits
    have hsplit : ds.take point.toNat ++ ds.drop point.toNat = ds := List.take_append_drop _ ds
    have htake : ds.take point.toNat ≠ [] := by
      rw [Ne, List.take_eq_nil_iff]
      rintro (h | h)
      · omega
      · exact hne h
    refine ⟨_, decimal?_point _ _ htake (fun c hc => hds c (List.mem_of_mem_take hc))
      (fun c hc => hds c (List.mem_of_mem_drop hc)), ?_⟩
    rw [hsplit, List.length_drop]
    congr 2
    omega

/-- Digits with a point behind the first of them, and an exponent. -/
theorem decimal?_scientific (style : NumberStyle) (hds : ∀ c ∈ ds, c.isDigit = true) (hne : ds ≠ [])
    (e : ℤ) : decimal? (style.scientific ds e) = some ⟨digitsValue ds, e + 1 - ds.length⟩ := by
  rw [scientific]
  let zeros := List.replicate (style.exponentWidth - (Nat.toDigits 10 e.natAbs).length) '0'
  have hes : ∀ c ∈ zeros ++ Nat.toDigits 10 e.natAbs, c.isDigit = true :=
    List.forall_mem_append.mpr ⟨isDigit_of_mem_zeros, isDigit_of_mem_toDigits⟩
  have hvalue : digitsValue (zeros ++ Nat.toDigits 10 e.natAbs) = e.natAbs := by
    rw [digitsValue_zeros_append, digitsValue_toDigits]
  have hexponent := exponent?_of_digits (by simp [Nat.toDigits_ne_nil]) hes hvalue
  by_cases hlength : 1 < ds.length
  · have hsplit : ds.take 1 ++ ds.drop 1 = ds := List.take_append_drop 1 ds
    have hread := decimal?_append_point (ds.take 1) (ds.drop 1) _ (by simp [hne])
      (fun c hc => hds c (List.mem_of_mem_take hc)) (fun c hc => hds c (List.mem_of_mem_drop hc))
      (by simp) hexponent
    rw [if_pos hlength, List.append_assoc, List.cons_append]
    refine hread.trans ?_
    rw [hsplit, List.length_drop]
    congr 2
    omega
  · have hone : ds.length = 1 := by
      have := List.length_pos_iff.mpr hne
      omega
    rw [if_neg hlength]
    refine (decimal?_append ds _ hne hds (by simp) hexponent).trans ?_
    rw [hone]
    congr 2
    omega

/-- Digits without the zeros at their end, and the zeros. -/
theorem exists_eq_append_zeros (ds : List Char) :
    ∃ k, ds = (ds.reverse.dropWhile (· = '0')).reverse ++ List.replicate k '0' := by
  have hzeros : ds.reverse.takeWhile (· = '0') =
      List.replicate (ds.reverse.takeWhile (· = '0')).length '0' := by
    refine List.eq_replicate_of_mem fun c hc => ?_
    simpa using List.mem_takeWhile_imp hc
  refine ⟨(ds.reverse.takeWhile (· = '0')).length, ?_⟩
  calc ds = (ds.reverse.takeWhile (· = '0') ++ ds.reverse.dropWhile (· = '0')).reverse := by
        rw [List.takeWhile_append_dropWhile, List.reverse_reverse]
    _ = _ := by rw [List.reverse_append, hzeros, List.reverse_replicate, List.length_replicate]

/-- **The numeral of a decimal is read as a decimal of the same value.** -/
theorem nearest_decimal (style : NumberStyle) {d : Decimal} (hd : 0 < d.coefficient) :
    ∃ d', decimal? (style.decimal d) = some d' ∧ d'.nearest = d.nearest := by
  obtain ⟨c, e⟩ := d
  dsimp only at hd
  obtain ⟨k, hk⟩ := exists_eq_append_zeros (Nat.toDigits 10 c)
  rw [decimal]
  dsimp only
  generalize ((Nat.toDigits 10 c).reverse.dropWhile (· = '0')).reverse = ds at hk ⊢
  have hvalue : c = digitsValue ds * 10 ^ k := by
    rw [← digitsValue_append_zeros, ← hk, digitsValue_toDigits]
  have hpos : 0 < digitsValue ds := by
    refine Nat.pos_of_ne_zero fun hzero => ?_
    rw [hzero, Nat.zero_mul] at hvalue
    omega
  have hds : ∀ x ∈ ds, x.isDigit = true := fun x hx =>
    isDigit_of_mem_toDigits (n := c) x (hk ▸ List.mem_append_left _ hx)
  have hne : ds ≠ [] := by rintro rfl; exact lt_irrefl 0 hpos
  have hlength : (Nat.toDigits 10 c).length = ds.length + k := by
    rw [hk, List.length_append, List.length_replicate]
  have hnearest : Decimal.nearest ⟨digitsValue ds, e + k⟩ = Decimal.nearest ⟨c, e⟩ := by
    rw [hvalue, ← Decimal.nearest_mul_pow hpos (e + k) k, Int.add_sub_cancel]
  have hexponent : e + (Nat.toDigits 10 c).length - ds.length = e + k := by
    rw [hlength]
    push_cast
    omega
  split_ifs
  · obtain ⟨d, hread, hd⟩ := nearest_positional hds hpos (e + (Nat.toDigits 10 c).length)
    rw [hexponent, hnearest] at hd
    exact ⟨d, hread, hd⟩
  · refine ⟨_, decimal?_scientific style hds hne _, ?_⟩
    rw [Int.sub_add_cancel, hexponent, hnearest]

/-- **The numeral of a magnitude is read as that magnitude.** -/
theorem unsigned?_magnitude (style : NumberStyle) (negative : Bool) (m : Magnitude) :
    unsigned? negative (style.magnitude m) = some (.signed negative m) := by
  have hfinite {d : Decimal} {cs : List Char} (hread : decimal? cs = some d)
      (hd : d.nearest = m) : unsigned? negative cs = some (.signed negative m) := by
    rw [unsigned?_of_decimal? negative hread, hd]
  rw [magnitude]
  split_ifs with hzero hinfinite
  · obtain rfl := Magnitude.eq_zero hzero
    exact hfinite (decimal?_point ['0'] ['0'] (by simp) (by simp) (by simp)) rfl
  · have hm : m = .infinity := by
      rw [← m.ofPlace_place, eq_of_beq hinfinite]
      rfl
    subst hm
    rfl
  · have hm : m.isInfinite = false := by simpa using hinfinite
    obtain ⟨d, hread, hd⟩ := nearest_decimal style (Decimal.coefficient_shortest_pos hm hzero)
    exact hfinite hread (hd.trans (Decimal.nearest_shortest hm))

/-! ### Numerals stand on one line -/

theorem newline_not_mem_digits (hds : ∀ c ∈ ds, c.isDigit = true) : '\n' ∉ ds := by
  intro h
  cases hds _ h

theorem newline_not_mem_positional (hds : '\n' ∉ ds) (point : ℤ) : '\n' ∉ positional ds point := by
  have htake : '\n' ∉ ds.take point.toNat := fun h => hds (List.mem_of_mem_take h)
  have hdrop : '\n' ∉ ds.drop point.toNat := fun h => hds (List.mem_of_mem_drop h)
  rw [positional]
  dsimp only
  split_ifs
  · simp [hds]
  · simp [hds]
  · simp [htake, hdrop]

theorem newline_not_mem_scientific (style : NumberStyle) (hds : '\n' ∉ ds) (e : ℤ) :
    '\n' ∉ style.scientific ds e := by
  have hdigits : '\n' ∉ Nat.toDigits 10 e.natAbs := newline_not_mem_digits isDigit_of_mem_toDigits
  have htake : '\n' ∉ ds.take 1 := fun h => hds (List.mem_of_mem_take h)
  have htail : '\n' ∉ ds.tail := fun h => hds (List.mem_of_mem_tail h)
  rw [scientific]
  split_ifs <;> simp [hds, hdigits, htake, htail]

theorem newline_not_mem_magnitude (style : NumberStyle) (m : Magnitude) :
    '\n' ∉ style.magnitude m := by
  have hds : '\n' ∉
      ((Nat.toDigits 10 (Decimal.shortest m).coefficient).reverse.dropWhile (· = '0')).reverse := by
    intro h
    have hmem := (List.dropWhile_sublist _).mem (List.mem_reverse.mp h)
    exact newline_not_mem_digits isDigit_of_mem_toDigits (List.mem_reverse.mp hmem)
  rw [magnitude]
  split_ifs
  · decide
  · decide
  · rw [decimal]
    split_ifs
    · exact newline_not_mem_positional hds _
    · exact newline_not_mem_scientific style hds _

end NumberStyle

end AelSyntax
