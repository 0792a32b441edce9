import AelSyntax.Proofs.Number.Writing
import Mathlib.Tactic.Common

/-! # Integers

An integer is written as its digits, behind a minus sign if it is below zero, and is read from them
again (`Numeral.integer?_toString`). -/

namespace AelSyntax

namespace Numeral

/-- The integer that is written in digits, with or without a sign in front. -/
def integer? (cs : List Char) : Option ℤ :=
  let (negative, ds) := takeSign cs
  if !ds.isEmpty && ds.all Char.isDigit then
    some (if negative then -digitsValue ds else digitsValue ds)
  else none

theorem toList_toString (n : ℤ) :
    (toString n).toList = (if n < 0 then ['-'] else []) ++ Nat.toDigits 10 n.natAbs := by
  cases n with
  | ofNat m =>
    have hsign : ¬ Int.ofNat m < 0 := Int.not_lt.mpr (Int.natCast_nonneg m)
    rw [if_neg hsign]
    exact Nat.toList_repr
  | negSucc m =>
    have hsign : Int.negSucc m < 0 := Int.negSucc_lt_zero m
    have hrepr : toString (Int.negSucc m) = "-" ++ (m + 1).repr := rfl
    rw [if_pos hsign, hrepr, String.toList_append, Nat.toList_repr]
    rfl

theorem isDigit_of_mem_toString {n : ℤ} :
    ∀ c ∈ (toString n).toList, c.isDigit = true ∨ c = '-' := by
  intro c hc
  rw [toList_toString, List.mem_append] at hc
  rcases hc with hc | hc
  · right
    split_ifs at hc with hn
    · exact List.mem_singleton.mp hc
    · cases hc
  · exact .inl (isDigit_of_mem_toDigits c hc)

/-- **An integer is read from its digits.** -/
theorem integer?_toString (n : ℤ) : integer? (toString n).toList = some n := by
  have hdigits : (Nat.toDigits 10 n.natAbs).all Char.isDigit = true :=
    List.all_eq_true.mpr isDigit_of_mem_toDigits
  have hds : (!(Nat.toDigits 10 n.natAbs).isEmpty && (Nat.toDigits 10 n.natAbs).all Char.isDigit) =
      true := by simp [Nat.toDigits_ne_nil, hdigits]
  rw [toList_toString]
  by_cases hn : n < 0
  · have hsign : takeSign ('-' :: Nat.toDigits 10 n.natAbs) =
        (true, Nat.toDigits 10 n.natAbs) := rfl
    rw [if_pos hn, List.singleton_append, integer?, hsign]
    simp only [if_pos hds, if_true, digitsValue_toDigits]
    congr 1
    omega
  · have hsign : takeSign (Nat.toDigits 10 n.natAbs) = (false, Nat.toDigits 10 n.natAbs) := by
      obtain ⟨d, ds, hcons⟩ := List.exists_cons_of_ne_nil (Nat.toDigits_ne_nil (n := n.natAbs))
      have hd : d.isDigit = true := isDigit_of_mem_toDigits d (hcons ▸ List.mem_cons_self)
      rw [hcons, takeSign_of_isDigit ds hd]
    rw [if_neg hn, List.nil_append, integer?, hsign]
    simp only [if_pos hds, Bool.false_eq_true, if_false, digitsValue_toDigits]
    congr 1
    omega

end Numeral

end AelSyntax
