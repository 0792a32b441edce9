/-! # Blank characters

Two classes of blanks are in use. Layout, which separates the lexemes of a program, is every
character up to the ASCII space. White space, which is cut off both ends of a typed entry, is that
of Unicode: it leaves out most control characters and holds the spaces of other scripts. -/

namespace AelSyntax.Text

/-- A control character or the ASCII space. -/
def isLayout (c : Char) : Bool := c ≤ ' '

/-- White space in the sense of Unicode. -/
def isWhiteSpace (c : Char) : Bool :=
  let n := c.toNat
  (0x09 ≤ n && n ≤ 0x0D) || (0x1C ≤ n && n ≤ 0x20) || n = 0x85 || n = 0xA0 || n = 0x1680 ||
    (0x2000 ≤ n && n ≤ 0x200A) || n = 0x2028 || n = 0x2029 || n = 0x202F || n = 0x205F || n = 0x3000

/-- White space of ASCII alone: the space and the characters from tab to carriage return. -/
def isPlainSpace (c : Char) : Bool := c = ' ' || ('\t' ≤ c && c ≤ '\r')

/-- The characters without those of a class at both ends. -/
def trimBoth (p : Char → Bool) (cs : List Char) : List Char :=
  ((cs.dropWhile p).reverse.dropWhile p).reverse

/-- A text without the white space at both ends. -/
def strip (s : String) : String := String.ofList (trimBoth isWhiteSpace s.toList)

end AelSyntax.Text
