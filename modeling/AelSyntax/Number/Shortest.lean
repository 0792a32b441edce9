import AelSyntax.Number.Decimal

/-! # The shortest decimal of a magnitude

The shortest decimal of a magnitude has the fewest digits among those whose nearest magnitude it is,
and among these it is the closest. The exact value is cut to one digit, two digits and so on; of the
two decimals around the cut the closer one that reads back is taken, the even one of two that are as
close. Seventeen digits always suffice; the exact value stands in for a cut that is never needed. -/

namespace AelSyntax.Decimal

/-- The decimal with the last digits of the coefficient cut off. -/
def cutDown (d : Decimal) (digits : Nat) : Decimal :=
  ⟨d.coefficient / Nat.pow 10 digits, d.exponent + digits⟩

/-- The next decimal on the grid of the exponent. -/
def next (d : Decimal) : Decimal := ⟨d.coefficient + 1, d.exponent⟩

/-- The decimals around a cut, the closer one first, of two as close the even one. -/
def aroundCut (d : Decimal) (digits : Nat) : List Decimal :=
  let low := d.cutDown digits
  let step := Nat.pow 10 digits
  let twice := 2 * (d.coefficient % step)
  if twice < step || (twice == step && low.coefficient % 2 == 0) then
    [low, low.next]
  else [low.next, low]

/-- The closest decimal around a cut of the exact value that reads back as the magnitude. -/
def atCut? (m : Magnitude) (exact : Decimal) (digits : Nat) : Option Decimal :=
  (exact.aroundCut digits).find? fun d => d.nearest == m

/-- The shortest decimal that reads back as the magnitude. -/
def shortest (m : Magnitude) : Decimal :=
  let exact := ofMagnitude m
  let digits := width exact.coefficient
  ((List.range 17).findSome? fun n => atCut? m exact (digits - (n + 1))).getD exact

end AelSyntax.Decimal
