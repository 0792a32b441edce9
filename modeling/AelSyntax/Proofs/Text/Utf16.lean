import Mathlib.Tactic.Common

/-! # UTF-16

A character is encoded as one unit, or as two if its code point is too large for one: a high
surrogate and a low one, which are code points of no character. So the characters of a text are
found in its units again (`ofUtf16?_flatMap`). -/

namespace AelSyntax.Text

/-- The units of a character. -/
def utf16 (c : Char) : List Nat :=
  if c.toNat < 0x10000 then [c.toNat]
  else [0xD800 + (c.toNat - 0x10000) / 0x400, 0xDC00 + (c.toNat - 0x10000) % 0x400]

/-- The first unit of two. -/
def isHighSurrogate (u : Nat) : Bool := 0xD800 ≤ u && u < 0xDC00

/-- The second unit of two. -/
def isLowSurrogate (u : Nat) : Bool := 0xDC00 ≤ u && u < 0xE000

/-- The characters that some units encode. -/
def ofUtf16? : List Nat → Option (List Char)
  | [] => some []
  | u :: us =>
    if isHighSurrogate u then
      match us with
      | [] => none
      | v :: us =>
        if isLowSurrogate v then
          (ofUtf16? us).map (Char.ofNat (0x10000 + (u - 0xD800) * 0x400 + (v - 0xDC00)) :: ·)
        else none
    else if isLowSurrogate u then none
    else (ofUtf16? us).map (Char.ofNat u :: ·)

/-- No character is a surrogate or above the last code point. -/
theorem toNat_cases (c : Char) : c.toNat < 0xD800 ∨ 0xDFFF < c.toNat ∧ c.toNat < 0x110000 := c.valid

/-- A character is found in its units. -/
theorem ofUtf16?_utf16_append (c : Char) (us : List Nat) :
    ofUtf16? (utf16 c ++ us) = (ofUtf16? us).map (c :: ·) := by
  have hvalid := toNat_cases c
  unfold utf16
  split_ifs with hc
  · have hhigh : ¬ isHighSurrogate c.toNat = true := by simp [isHighSurrogate]; omega
    have hlow : ¬ isLowSurrogate c.toNat = true := by simp [isLowSurrogate]; omega
    rw [List.singleton_append, ofUtf16?.eq_def]
    dsimp only
    rw [if_neg hhigh, if_neg hlow, Char.ofNat_toNat]
  · have hhigh : isHighSurrogate (0xD800 + (c.toNat - 0x10000) / 0x400) = true := by
      simp [isHighSurrogate]; omega
    have hlow : isLowSurrogate (0xDC00 + (c.toNat - 0x10000) % 0x400) = true := by
      simp [isLowSurrogate]; omega
    have hpoint : 0x10000 + (0xD800 + (c.toNat - 0x10000) / 0x400 - 0xD800) * 0x400 +
        (0xDC00 + (c.toNat - 0x10000) % 0x400 - 0xDC00) = c.toNat := by omega
    rw [List.cons_append, List.singleton_append, ofUtf16?.eq_def]
    dsimp only
    rw [if_pos hhigh, if_pos hlow, hpoint, Char.ofNat_toNat]

/-- **The characters of a text are found in its units.** -/
theorem ofUtf16?_flatMap (cs : List Char) : ofUtf16? (cs.flatMap utf16) = some cs := by
  induction cs with
  | nil => rfl
  | cons c cs ih => rw [List.flatMap_cons, ofUtf16?_utf16_append, ih, Option.map_some]

end AelSyntax.Text
