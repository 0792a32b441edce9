import AelSyntax.Json.Basic
import AelSyntax.Proofs.Json.Grammar
import Mathlib.Data.Nat.Digits.Defs
import Mathlib.Tactic.Common

/-! # Strings in JSON

Between the quotation marks a text is written character by character. The characters or escapes that
are written for a character stand for its units of UTF-16 (`characters_textChar`), and so those that
are written for a text stand for the units of the text (`characters_text`). -/

namespace AelSyntax.Json

open AelSyntax.Text

/-! ### Hexadecimal digits -/

theorem hexDigitValue?_digitChar : ∀ d < 16, hexDigitValue? d.digitChar = some d := by decide

theorem hexValue_concat (hs : List Char) (h : Char) :
    hexValue (hs ++ [h]) = 16 * hexValue hs + (hexDigitValue? h).getD 0 := by
  rw [hexValue, List.foldl_append]
  rfl

theorem hexValue_zeros_append (n : ℕ) (hs : List Char) :
    hexValue (List.replicate n '0' ++ hs) = hexValue hs := by
  induction n with
  | zero => rfl
  | succ n ih => exact ih

theorem hexValue_toDigits (n : ℕ) : hexValue (Nat.toDigits 16 n) = n := by
  induction n using Nat.strongRecOn with
  | ind n ih =>
    by_cases hlt : n < 16
    · have hdigit := hexDigitValue?_digitChar n hlt
      rw [Nat.toDigits_of_lt_base hlt, ← List.nil_append [n.digitChar], hexValue_concat, hdigit]
      exact Nat.zero_add n
    · have hdigit := hexDigitValue?_digitChar (n % 16) (Nat.mod_lt n (by decide))
      rw [Nat.toDigits_of_base_le (by decide) (by omega), hexValue_concat, ih (n / 16) (by omega),
        hdigit]
      exact Nat.div_add_mod n 16

theorem isSome_of_mem_toDigits {n : ℕ} :
    ∀ h ∈ Nat.toDigits 16 n, (hexDigitValue? h).isSome = true := by
  induction n using Nat.strongRecOn with
  | ind n ih =>
    by_cases hlt : n < 16
    · rw [Nat.toDigits_of_lt_base hlt, List.forall_mem_singleton, hexDigitValue?_digitChar n hlt]
      rfl
    · have hdigit := hexDigitValue?_digitChar (n % 16) (Nat.mod_lt n (by decide))
      rw [Nat.toDigits_of_base_le (by decide) (by omega), List.forall_mem_append,
        List.forall_mem_singleton, hdigit]
      exact ⟨ih (n / 16) (by omega), rfl⟩

/-- The escape of a unit stands for the unit. -/
theorem characters_unitEscape {n : ℕ} {s t : List Char} {us : List ℕ} (hn : n < 0x10000)
    (h : Characters s us t) : Characters (unitEscape n ++ s) (n :: us) t := by
  have hle : (Nat.toDigits 16 n).length ≤ 4 :=
    (Nat.length_toDigits_le_iff (by decide) (by decide)).mpr hn
  have hlength : (hexDigits 4 n).length = 4 := by
    rw [hexDigits, List.length_append, List.length_replicate]
    omega
  have hhex : ∀ h ∈ hexDigits 4 n, (hexDigitValue? h).isSome = true := by
    rw [hexDigits, List.forall_mem_append]
    refine ⟨fun h hh => ?_, isSome_of_mem_toDigits⟩
    rw [List.eq_of_mem_replicate hh]
    rfl
  have hvalue : hexValue (hexDigits 4 n) = n := by
    rw [hexDigits, hexValue_zeros_append, hexValue_toDigits]
  have hunit := Characters.unit hlength hhex rfl h
  rwa [hvalue] at hunit

/-! ### Texts -/

/-- What is written for a character stands for its units. -/
theorem characters_textChar (c : Char) {s t : List Char} {us : List ℕ} (h : Characters s us t) :
    Characters (textChar c ++ s) (utf16 c ++ us) t := by
  have hvalid := toNat_cases c
  unfold textChar
  split_ifs with hself hnewline hreturn htab hback hfeed hplain hsmall
  · simp only [Bool.or_eq_true, decide_eq_true_eq] at hself
    rcases hself with rfl | rfl
    · exact .escaped rfl h
    · exact .escaped rfl h
  · subst hnewline
    exact .escaped rfl h
  · subst hreturn
    exact .escaped rfl h
  · subst htab
    exact .escaped rfl h
  · subst hback
    exact .escaped rfl h
  · subst hfeed
    exact .escaped rfl h
  · simp only [Bool.or_eq_true, decide_eq_true_eq, not_or] at hself
    simp only [Bool.and_eq_true, decide_eq_true_eq] at hplain
    exact .plain hplain.1 hself.1 hself.2 h
  · have hunits : utf16 c = [c.toNat] := if_pos hsmall
    rw [hunits]
    exact characters_unitEscape hsmall h
  · have hunits : utf16 c = [0xD800 + (c.toNat - 0x10000) / 0x400,
      0xDC00 + (c.toNat - 0x10000) % 0x400] := if_neg hsmall
    rw [hunits, List.append_assoc]
    exact characters_unitEscape (by omega) (characters_unitEscape (by omega) h)

/-- **What is written for a text stands for its units.** -/
theorem characters_text (cs t : List Char) :
    Characters (cs.flatMap textChar ++ '"' :: t) (cs.flatMap utf16) t := by
  induction cs with
  | nil => exact .closed t
  | cons c cs ih =>
    rw [List.flatMap_cons, List.flatMap_cons, List.append_assoc]
    exact characters_textChar c ih

theorem writtenText_append (s : String) (t : List Char) :
    writtenText s ++ t = '"' :: (s.toList.flatMap textChar ++ '"' :: t) := by
  rw [writtenText, List.append_assoc]
  rfl

end AelSyntax.Json
