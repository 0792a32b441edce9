/-! # Hexadecimal digits

Escapes write a code point or a part of it in a fixed number of hexadecimal digits. -/

namespace AelSyntax.Text

/-- A number in lower-case hexadecimal digits, filled up with zeros to the width. -/
def hexDigits (width n : Nat) : List Char :=
  let ds := Nat.toDigits 16 n
  List.replicate (width - ds.length) '0' ++ ds

end AelSyntax.Text
