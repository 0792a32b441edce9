import AelSyntax.Number.Shortest

/-! # Writing numbers

A number is written in its shortest digits. From `10^-4` on and below `10^16` the point stands where
it belongs and at least one digit follows it; elsewhere the point follows the first digit, if there
is another, and an exponent with a sign and at least two digits ends the numeral. -/

namespace AelSyntax

/-- The choices made in writing a number: the powers of ten between which the point stands where it
belongs, and the least number of digits of an exponent. -/
structure NumberStyle where
  leastPositional : Int
  leastScientific : Int
  exponentWidth : Nat

namespace NumberStyle

/-- The point stands in its place from `10^-4` on and below `10^16`; an exponent has two digits. -/
def standard : NumberStyle := ⟨-4, 16, 2⟩

/-- The digits of a number with the point after the first `point` of them, which may be before the
first or after the last. -/
def positional (ds : List Char) (point : Int) : List Char :=
  if point ≤ 0 then '0' :: '.' :: (List.replicate (-point).toNat '0' ++ ds)
  else
    let n := point.toNat
    if ds.length ≤ n then ds ++ List.replicate (n - ds.length) '0' ++ ['.', '0']
    else ds.take n ++ '.' :: ds.drop n

/-- The digits of a number with the point after the first, and an exponent. -/
def scientific (style : NumberStyle) (ds : List Char) (exponent : Int) : List Char :=
  let significand := if 1 < ds.length then ds.take 1 ++ '.' :: ds.drop 1 else ds
  let es := Nat.toDigits 10 exponent.natAbs
  significand ++ 'e' :: (if exponent < 0 then '-' else '+') ::
    (List.replicate (style.exponentWidth - es.length) '0' ++ es)

/-- The numeral of a decimal other than zero. -/
def decimal (style : NumberStyle) (d : Decimal) : List Char :=
  let ds := Nat.toDigits 10 d.coefficient
  let point := d.exponent + ds.length
  let ds := (ds.reverse.dropWhile (· = '0')).reverse
  if style.leastPositional < point && point ≤ style.leastScientific then positional ds point
  else scientific style ds (point - 1)

/-- The numeral of a magnitude. -/
def magnitude (style : NumberStyle) (m : Magnitude) : List Char :=
  if m.place = 0 then ['0', '.', '0']
  else if m.isInfinite then ['i', 'n', 'f']
  else style.decimal (Decimal.shortest m)

end NumberStyle

namespace Binary64

/-- A sign in front of a numeral. -/
def withSign (negative : Bool) (cs : List Char) : List Char := if negative then '-' :: cs else cs

/-- The text of a number. -/
def written : Binary64 → String
  | nan => "nan"
  | signed negative m => String.ofList (withSign negative (NumberStyle.standard.magnitude m))

end Binary64

end AelSyntax
