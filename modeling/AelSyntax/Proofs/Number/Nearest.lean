import AelSyntax.Number.Shortest
import Mathlib.Data.Nat.Prime.Basic
import Mathlib.Tactic.Common
import Mathlib.Tactic.Ring

/-! # Magnitudes as nearest magnitudes

The magnitude nearest to a fraction depends on the value of the fraction only, and the one nearest
to the value of a finite magnitude is the magnitude itself (`Magnitude.nearest_units`). The same is
true of decimals: a power of ten may move between the coefficient and the exponent
(`Decimal.nearest_mul_pow`), and a decimal with the value of a magnitude is nearest to no other one
(`Decimal.nearest_eq_of_units`). So the shortest decimal of a magnitude reads back as the magnitude,
whether one of the cuts was taken or none (`Decimal.nearest_shortest`). -/

namespace AelSyntax

theorem bandSize_pos : 0 < bandSize := Nat.two_pow_pos 52

theorem unitsInOne_eq : unitsInOne = 2 ^ 1074 := by decide +kernel

theorem unitsInOne_pos : 0 < unitsInOne := by decide +kernel

/-! ### Rounding -/

theorem roundHalfEven_mul_right (num den : ℕ) {c : ℕ} (hc : 0 < c) :
    roundHalfEven (num * c) (den * c) = roundHalfEven num den := by
  have hlt (a b : ℕ) : 2 * (a * c) < b * c ↔ 2 * a < b := by
    rw [← Nat.mul_assoc, Nat.mul_lt_mul_right hc]
  have hgt (a b : ℕ) : b * c < 2 * (a * c) ↔ b < 2 * a := by
    rw [← Nat.mul_assoc, Nat.mul_lt_mul_right hc]
  simp only [roundHalfEven, Nat.mul_div_mul_right _ _ hc, Nat.mul_mod_mul_right, hlt, hgt]

theorem roundHalfEven_mul_self (q : ℕ) {den : ℕ} (hden : 0 < den) :
    roundHalfEven (q * den) den = q := by
  simp only [roundHalfEven, Nat.mul_div_cancel _ hden, Nat.mul_mod_left, Nat.mul_zero, if_pos hden]

namespace Magnitude

/-- A common factor may be cancelled. -/
theorem nearest_mul_right (num den : ℕ) {c : ℕ} (hc : 0 < c) :
    nearest (num * c) (den * c) = nearest num den := by
  simp only [nearest, Nat.mul_div_mul_right _ _ hc, Nat.mul_right_comm den c,
    roundHalfEven_mul_right _ _ hc]

theorem nearest_eq_of_mul_eq {num den num' den' : ℕ} (hden : 0 < den) (hden' : 0 < den')
    (h : num * den' = num' * den) : nearest num den = nearest num' den' :=
  calc nearest num den = nearest (num * den') (den * den') := (nearest_mul_right _ _ hden').symm
    _ = nearest (num' * den) (den' * den) := by rw [h, Nat.mul_comm den]
    _ = nearest num' den' := nearest_mul_right _ _ hden

/-! ### Finite magnitudes -/

variable (m : Magnitude)

/-- The `q` of a magnitude `q · 2^s`. -/
def significand : ℕ := m.place - m.doublings * bandSize

theorem units_eq : m.units = m.significand * 2 ^ m.doublings := rfl

theorem place_eq : m.place = m.doublings * bandSize + m.significand := by
  have hle : m.place / bandSize * bandSize ≤ m.place := Nat.div_mul_le_self _ _
  have hdoublings : m.doublings * bandSize ≤ m.place :=
    (Nat.mul_le_mul_right _ (Nat.sub_le _ 1)).trans hle
  unfold significand
  omega

theorem significand_lt : m.significand < 2 * bandSize := by
  have hlt : m.place < m.place / bandSize * bandSize + bandSize :=
    Nat.lt_div_mul_add bandSize_pos
  have hdiv : m.place / bandSize ≤ m.doublings + 1 := by unfold doublings; omega
  have hmul := Nat.mul_le_mul_right bandSize hdiv
  rw [Nat.add_mul, Nat.one_mul] at hmul
  have := m.place_eq
  omega

theorem bandSize_le_significand (h : m.doublings ≠ 0) : bandSize ≤ m.significand := by
  have hle : m.place / bandSize * bandSize ≤ m.place := Nat.div_mul_le_self _ _
  have hdiv : m.place / bandSize = m.doublings + 1 := by unfold doublings at h ⊢; omega
  rw [hdiv, Nat.add_mul, Nat.one_mul] at hle
  have := m.place_eq
  omega

/-- The number of doublings is found in the value again. -/
theorem log2_units : m.units.log2 - 52 = m.doublings := by
  have hlt : m.units < 2 ^ (m.doublings + 53) := by
    rw [units_eq, Nat.add_comm, Nat.pow_add]
    exact Nat.mul_lt_mul_of_pos_right m.significand_lt (Nat.two_pow_pos _)
  by_cases h : m.doublings = 0
  · rw [h, Nat.zero_add] at hlt
    have hlog : m.units.log2 < 53 := by
      by_cases hzero : m.units = 0
      · rw [hzero]; decide
      · exact (Nat.log2_lt hzero).mpr hlt
    omega
  · have hge : 2 ^ (m.doublings + 52) ≤ m.units := by
      rw [units_eq, Nat.add_comm, Nat.pow_add]
      exact Nat.mul_le_mul_right _ (m.bandSize_le_significand h)
    have hzero : m.units ≠ 0 := ((Nat.two_pow_pos _).trans_le hge).ne'
    have hlog := (Nat.log2_lt hzero).mpr hlt
    have hlog' := (Nat.le_log2 hzero).mpr hge
    omega

theorem ofPlace_place : ofPlace m.place = m := by
  have hmin : min m.place infinityPlace = m.place := Nat.min_eq_left m.place_le
  obtain ⟨place, hle⟩ := m
  simp only [ofPlace, hmin]

theorem eq_zero {m : Magnitude} (h : m.place = 0) : m = zero := by
  rw [← m.ofPlace_place, h]
  rfl

@[simp] theorem units_zero : zero.units = 0 := by decide

/-- **The magnitude nearest to the value of a magnitude** is that magnitude. -/
theorem nearest_units : nearest m.units 1 = m := by
  have hround : roundHalfEven m.units (1 * Nat.pow 2 m.doublings) = m.significand := by
    rw [Nat.one_mul]
    exact roundHalfEven_mul_self _ (Nat.two_pow_pos _)
  simp only [nearest, Nat.div_one, log2_units, hround]
  rw [← place_eq, ofPlace_place]

theorem eq_of_units_eq {m m' : Magnitude} (h : m.units = m'.units) : m = m' := by
  rw [← m.nearest_units, h, m'.nearest_units]

theorem units_lt (h : m.isInfinite = false) : m.units < 2 ^ 2098 := by
  have hplace : m.place < 2047 * bandSize := by
    have hne : m.place ≠ infinityPlace := by simpa [isInfinite] using h
    exact lt_of_le_of_ne m.place_le hne
  have hdiv : m.place / bandSize < 2047 := Nat.div_lt_of_lt_mul (by rwa [Nat.mul_comm])
  have hdoublings : m.doublings ≤ 2045 := by unfold doublings; omega
  calc m.units < 2 * bandSize * 2 ^ m.doublings :=
        Nat.mul_lt_mul_of_pos_right m.significand_lt (Nat.two_pow_pos _)
    _ ≤ 2 * bandSize * 2 ^ 2045 :=
        Nat.mul_le_mul_left _ (Nat.pow_le_pow_right (by decide) hdoublings)
    _ = 2 ^ 2098 := by decide +kernel

end Magnitude

namespace Decimal

/-! ### Digits -/

/-- A power of ten is written as zeros. -/
theorem toDigits_mul_pow {c : ℕ} (hc : 0 < c) (k : ℕ) :
    Nat.toDigits 10 (c * 10 ^ k) = Nat.toDigits 10 c ++ List.replicate k '0' := by
  induction k with
  | zero => simp
  | succ k ih =>
    have hpos : 0 < c * 10 ^ k := Nat.mul_pos hc (Nat.pow_pos (by decide))
    have happend := Nat.toDigits_append_toDigits (b := 10) (d := 0) (by decide) hpos (by decide)
    rw [Nat.toDigits_zero, ih, Nat.add_zero] at happend
    rw [show c * 10 ^ (k + 1) = 10 * (c * 10 ^ k) by ring, ← happend, List.append_assoc,
      ← List.replicate_succ']

theorem width_pos (c : ℕ) : 0 < width c := Nat.length_toDigits_pos

theorem lt_pow_width (c : ℕ) : c < 10 ^ width c :=
  (Nat.length_toDigits_le_iff (by decide) (width_pos c)).mp le_rfl

theorem pow_le_of_pos {c : ℕ} (hc : 0 < c) : 10 ^ (width c - 1) ≤ c := by
  by_contra hlt
  have hpos := width_pos c
  by_cases hone : width c = 1
  · rw [hone] at hlt
    exact hlt hc
  · have hle : width c ≤ width c - 1 :=
      (Nat.length_toDigits_le_iff (by decide) (by omega)).mpr (by omega)
    omega

/-! ### Decimals of one value -/

/-- A power of ten may move from the exponent to the coefficient. -/
theorem nearest_mul_pow {c : ℕ} (hc : 0 < c) (e : ℤ) (k : ℕ) :
    nearest ⟨c * 10 ^ k, e - k⟩ = nearest ⟨c, e⟩ := by
  have hwidth : width (c * 10 ^ k) = width c + k := by
    simp only [width, toDigits_mul_pow hc, List.length_append, List.length_replicate]
  have htop : e - k + width (c * 10 ^ k) = e + width c := by
    rw [hwidth]
    push_cast
    omega
  have hzero : c * 10 ^ k ≠ 0 := (Nat.mul_pos hc (Nat.pow_pos (by decide))).ne'
  have hexponents : k + (e - k).toNat + (-e).toNat = e.toNat + (-(e - k)).toNat := by omega
  have hratio : Magnitude.nearest (c * 10 ^ k * 10 ^ (e - k).toNat * unitsInOne)
      (10 ^ (-(e - k)).toNat) = .nearest (c * 10 ^ e.toNat * unitsInOne) (10 ^ (-e).toNat) := by
    apply Magnitude.nearest_eq_of_mul_eq (Nat.pow_pos (by decide)) (Nat.pow_pos (by decide))
    calc c * 10 ^ k * 10 ^ (e - k).toNat * unitsInOne * 10 ^ (-e).toNat
        = c * unitsInOne * 10 ^ (k + (e - k).toNat + (-e).toNat) := by ring
      _ = c * unitsInOne * 10 ^ (e.toNat + (-(e - k)).toNat) := by rw [hexponents]
      _ = c * 10 ^ e.toNat * unitsInOne * 10 ^ (-(e - k)).toNat := by ring
  simp only [nearest, Nat.pow_eq, htop, if_neg hzero, if_neg hc.ne', hratio]

section value

variable {m : Magnitude} {c : ℕ} {e : ℤ}

/-- A decimal with the value of a finite magnitude is below `10^400`. -/
theorem top_le (hm : m.isInfinite = false) (hc : 0 < c)
    (h : c * 10 ^ e.toNat * unitsInOne = m.units * 10 ^ (-e).toNat) : e + width c ≤ 400 := by
  by_contra hlt
  have hwidth := width_pos c
  have hbound : 2 ^ 2098 ≤ 10 ^ 400 * unitsInOne := by decide +kernel
  have hcoefficient := Nat.mul_le_mul_right (10 ^ e.toNat) (pow_le_of_pos hc)
  have hexponents : 400 + (-e).toNat ≤ width c - 1 + e.toNat := by omega
  refine lt_irrefl (10 ^ (400 + (-e).toNat) * unitsInOne) ?_
  calc 10 ^ (400 + (-e).toNat) * unitsInOne
      ≤ 10 ^ (width c - 1 + e.toNat) * unitsInOne :=
        Nat.mul_le_mul_right _ (Nat.pow_le_pow_right (by decide) hexponents)
    _ = 10 ^ (width c - 1) * 10 ^ e.toNat * unitsInOne := by rw [Nat.pow_add]
    _ ≤ c * 10 ^ e.toNat * unitsInOne := Nat.mul_le_mul_right _ hcoefficient
    _ = m.units * 10 ^ (-e).toNat := h
    _ < 2 ^ 2098 * 10 ^ (-e).toNat :=
        Nat.mul_lt_mul_of_pos_right (m.units_lt hm) (Nat.pow_pos (by decide))
    _ ≤ 10 ^ 400 * unitsInOne * 10 ^ (-e).toNat := Nat.mul_le_mul_right _ hbound
    _ = 10 ^ (400 + (-e).toNat) * unitsInOne := by rw [Nat.pow_add, Nat.mul_right_comm]

/-- A decimal with the value of a magnitude above zero is not below `10^-400`. -/
theorem le_top (hunits : 0 < m.units)
    (h : c * 10 ^ e.toNat * unitsInOne = m.units * 10 ^ (-e).toNat) : -400 ≤ e + width c := by
  by_contra hlt
  have hbound : unitsInOne ≤ 10 ^ 400 := by decide +kernel
  have hcoefficient := Nat.mul_lt_mul_of_pos_right (lt_pow_width c)
    (show 0 < 10 ^ e.toNat from Nat.pow_pos (by decide))
  have hexponents : width c + e.toNat + 400 ≤ (-e).toNat := by omega
  refine lt_irrefl (10 ^ (-e).toNat) ?_
  calc 10 ^ (-e).toNat ≤ m.units * 10 ^ (-e).toNat := Nat.le_mul_of_pos_left _ hunits
    _ = c * 10 ^ e.toNat * unitsInOne := h.symm
    _ < 10 ^ width c * 10 ^ e.toNat * unitsInOne :=
        Nat.mul_lt_mul_of_pos_right hcoefficient unitsInOne_pos
    _ ≤ 10 ^ width c * 10 ^ e.toNat * 10 ^ 400 := by gcongr
    _ = 10 ^ (width c + e.toNat + 400) := by rw [Nat.pow_add, Nat.pow_add]
    _ ≤ 10 ^ (-e).toNat := Nat.pow_le_pow_right (by decide) hexponents

/-- **A decimal with the value of a finite magnitude** is nearest to that magnitude. -/
theorem nearest_eq_of_units (hm : m.isInfinite = false)
    (h : c * 10 ^ e.toNat * unitsInOne = m.units * 10 ^ (-e).toNat) : nearest ⟨c, e⟩ = m := by
  have hpow : 0 < 10 ^ (-e).toNat := Nat.pow_pos (by decide)
  rcases Nat.eq_zero_or_pos c with rfl | hc
  · have hunits : m.units = 0 := by
      rw [Nat.zero_mul, Nat.zero_mul] at h
      exact (Nat.mul_eq_zero.mp h.symm).resolve_right hpow.ne'
    rw [nearest]
    exact (Magnitude.eq_of_units_eq (hunits.trans Magnitude.units_zero.symm)).symm
  · have hunits : 0 < m.units := by
      refine Nat.pos_of_mul_pos_right (b := 10 ^ (-e).toNat) ?_
      rw [← h]
      exact Nat.mul_pos (Nat.mul_pos hc (Nat.pow_pos (by decide))) unitsInOne_pos
    have hle := top_le hm hc h
    have hge := le_top hunits h
    have hnearest : Magnitude.nearest (c * 10 ^ e.toNat * unitsInOne) (10 ^ (-e).toNat) = m := by
      refine Eq.trans (Magnitude.nearest_eq_of_mul_eq (Nat.pow_pos (by decide)) Nat.one_pos ?_)
        m.nearest_units
      rw [Nat.mul_one, h]
    simp only [nearest, Nat.pow_eq, if_neg hc.ne', if_neg (show ¬ 400 < e + width c by omega),
      if_neg (show ¬ e + width c < -400 by omega), hnearest]

end value

/-- Every finite magnitude has a decimal with its value. -/
theorem nearest_ofMagnitude {m : Magnitude} (hm : m.isInfinite = false) :
    (ofMagnitude m).nearest = m := by
  have hdvd : m.units.gcd unitsInOne ∣ 2 ^ 1074 := unitsInOne_eq ▸ Nat.gcd_dvd_right m.units _
  obtain ⟨i, hi, hgcd⟩ := (Nat.dvd_prime_pow Nat.prime_two).mp hdvd
  have hone : unitsInOne = 2 ^ i * 2 ^ (1074 - i) := by
    rw [← Nat.pow_add, Nat.add_sub_cancel' hi, unitsInOne_eq]
  have hlog : (unitsInOne / 2 ^ i).log2 = 1074 - i := by
    rw [hone, Nat.mul_div_cancel_left _ (Nat.two_pow_pos i), Nat.log2_two_pow]
  have hcancel : m.units / 2 ^ i * 2 ^ i = m.units :=
    Nat.div_mul_cancel (hgcd ▸ Nat.gcd_dvd_left _ _)
  simp only [ofMagnitude, hgcd, hlog]
  apply nearest_eq_of_units hm
  generalize 1074 - i = j at hone
  rw [hone, Int.neg_neg, Int.toNat_natCast, Int.toNat_neg_natCast, Nat.pow_zero, Nat.mul_one]
  calc m.units / 2 ^ i * Nat.pow 5 j * (2 ^ i * 2 ^ j)
      = m.units / 2 ^ i * 2 ^ i * (5 ^ j * 2 ^ j) := by rw [Nat.pow_eq]; ring
    _ = m.units * 10 ^ j := by rw [hcancel, ← Nat.mul_pow]

/-- **The shortest decimal reads back.** -/
theorem nearest_shortest {m : Magnitude} (hm : m.isInfinite = false) :
    (shortest m).nearest = m := by
  unfold shortest
  dsimp only
  cases hfind : (List.range 17).findSome? fun n =>
      atCut? m (ofMagnitude m) (width (ofMagnitude m).coefficient - (n + 1)) with
  | none => exact nearest_ofMagnitude hm
  | some d =>
    obtain ⟨n, -, hcut⟩ := List.exists_of_findSome?_eq_some hfind
    have hd := List.find?_some hcut
    exact eq_of_beq hd

theorem coefficient_shortest_pos {m : Magnitude} (hm : m.isInfinite = false) (hzero : m.place ≠ 0) :
    0 < (shortest m).coefficient := by
  refine Nat.pos_of_ne_zero fun hc => hzero ?_
  have hnearest : (shortest m).nearest = .zero := by
    rw [Decimal.nearest]
    exact if_pos hc
  rw [← nearest_shortest hm, hnearest]
  rfl

end Decimal

end AelSyntax
