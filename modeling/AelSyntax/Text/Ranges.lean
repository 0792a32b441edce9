/-! # Ranges of characters

A class of characters beyond ASCII is kept as the increasing list of its ranges. -/

namespace AelSyntax.Text

/-- The character lies in one of the ranges, each given by its first and its last code point. -/
def inRanges (ranges : List (Nat × Nat)) (c : Char) : Bool :=
  ranges.any fun r => r.1 ≤ c.toNat && c.toNat ≤ r.2

end AelSyntax.Text
