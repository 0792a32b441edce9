/-! # Binary floating point numbers of 64 bits

A magnitude is one of the values `0`, `q · 2^s` units with `q < 2^53` and `s ≤ 2045`, or infinity,
where the unit is `2^-1074`, the smallest positive one. It is kept as its place in the increasing
order of all of them: the place of `q · 2^s` is `s · 2^52 + q` as soon as `s = 0` or `2^52 ≤ q`, and
infinity follows the greatest finite magnitude. A number is a magnitude with a sign, or no number.

* `Magnitude.units`: the value of a finite magnitude as a count of units.
* `Magnitude.nearest`: the magnitude nearest to a fraction of units, the even one of two. -/

namespace AelSyntax

/-- The number of magnitudes between two doublings of their distance. -/
def bandSize : Nat := Nat.pow 2 52

/-- The units in one. -/
def unitsInOne : Nat := Nat.pow 2 1074

/-- The place of infinity among the magnitudes. -/
def infinityPlace : Nat := 2047 * bandSize

/-- A magnitude, kept as its place in increasing order. -/
structure Magnitude where
  place : Nat
  place_le : place ≤ infinityPlace
deriving DecidableEq

namespace Magnitude

/-- The magnitude at a place, infinity beyond its own. -/
def ofPlace (n : Nat) : Magnitude := ⟨min n infinityPlace, Nat.min_le_right n infinityPlace⟩

/-- The smallest magnitude. -/
def zero : Magnitude := ofPlace 0

/-- The magnitude above all finite ones. -/
def infinity : Magnitude := ofPlace infinityPlace

/-- The number of doublings in `q · 2^s`. -/
def doublings (m : Magnitude) : Nat := m.place / bandSize - 1

/-- The value of a finite magnitude, counted in units of `2^-1074`. -/
def units (m : Magnitude) : Nat := (m.place - m.doublings * bandSize) * Nat.pow 2 m.doublings

/-- The magnitude is above all finite ones. -/
def isInfinite (m : Magnitude) : Bool := m.place == infinityPlace

end Magnitude

/-- The whole number nearest to a fraction, the even one of two. -/
def roundHalfEven (num den : Nat) : Nat :=
  let q := num / den
  let twice := 2 * (num % den)
  if twice < den then q else if den < twice then q + 1 else q + q % 2

/-- The magnitude nearest to a fraction of units, the one with even `q` of two. -/
def Magnitude.nearest (num den : Nat) : Magnitude :=
  let s := (num / den).log2 - 52
  ofPlace (s * bandSize + roundHalfEven num (den * Nat.pow 2 s))

/-- A binary floating point number of 64 bits; the values that are no number are not told apart. -/
inductive Binary64 where
  | nan
  | signed (negative : Bool) (magnitude : Magnitude)
deriving DecidableEq

namespace Binary64

/-- The number is below zero; a zero with a minus sign is not. -/
def isBelowZero : Binary64 → Bool
  | nan => false
  | signed negative m => negative && m.place != 0

/-- Equality of values: the two zeros are equal, and what is no number equals nothing. -/
def sameValue : Binary64 → Binary64 → Bool
  | signed n m, signed n' m' => m == m' && (n == n' || m.place == 0)
  | _, _ => false

/-- The number is finite and has no fraction; then its absolute value. -/
def whole? : Binary64 → Option Nat
  | nan => none
  | signed _ m =>
    if m.isInfinite || m.units % unitsInOne != 0 then none else some (m.units / unitsInOne)

end Binary64

end AelSyntax
