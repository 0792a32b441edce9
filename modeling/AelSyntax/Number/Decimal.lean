import AelSyntax.Number.Binary64

/-! # Decimal numbers

A decimal is a coefficient times a power of ten. The magnitude nearest to it is found in whole
numbers, by rounding a fraction of units once; every finite magnitude is a decimal itself. -/

namespace AelSyntax

/-- The number `coefficient · 10^exponent`. -/
structure Decimal where
  coefficient : Nat
  exponent : Int
deriving DecidableEq

namespace Decimal

/-- The number of decimal digits. -/
def width (n : Nat) : Nat := (Nat.toDigits 10 n).length

/-- The magnitude nearest to a decimal. A decimal of `10^400` or more is above every finite
magnitude and one below `10^-400` is nearest to zero, so their powers of ten are not computed. -/
def nearest (d : Decimal) : Magnitude :=
  let top := d.exponent + width d.coefficient
  if d.coefficient = 0 then .zero
  else if 400 < top then .infinity
  else if top < -400 then .zero
  else
    .nearest (d.coefficient * Nat.pow 10 d.exponent.toNat * unitsInOne)
      (Nat.pow 10 (-d.exponent).toNat)

/-- The value of a finite magnitude as a decimal: a fraction over `2^j` in lowest terms is a
coefficient over `10^j` after a multiplication by `5^j`. -/
def ofMagnitude (m : Magnitude) : Decimal :=
  let common := Nat.gcd m.units unitsInOne
  let j : Nat := Nat.log2 (unitsInOne / common)
  ⟨m.units / common * Nat.pow 5 j, -(j : Int)⟩

end Decimal

end AelSyntax
