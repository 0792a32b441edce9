import AelSyntax.Number.Decimal
import AelSyntax.Text.Blank
import AelSyntax.Text.Digit

/-! # Reading numerals

A numeral is written as digits with an optional fraction and an optional exponent, or as one of the
words for infinity and for no number, with an optional sign in front and white space around it. The
digits may be those of any script; an underscore may stand between two digits. The value is the
nearest floating point number. -/

namespace AelSyntax.Numeral

open AelSyntax.Text

/-! ### One alphabet -/

/-- The ASCII character that a character stands for in a numeral: spaces and digits of other scripts
are taken for the ASCII ones, all else beyond ASCII stands for nothing. -/
def plainChar? (c : Char) : Option Char :=
  if c.toNat < 127 then some c
  else if isWhiteSpace c then some ' '
  else (digitValue? c).map Nat.digitChar

/-- The text without its underscores, if each of them stands between two digits; the first argument
says whether a digit has just been read. -/
def withoutUnderscores : Bool → List Char → Option (List Char)
  | _, [] => some []
  | afterDigit, c :: cs =>
    if c = '_' then
      if afterDigit && cs.head?.any Char.isDigit then withoutUnderscores false cs else none
    else (withoutUnderscores c.isDigit cs).map (c :: ·)

/-! ### Parts of a numeral -/

/-- The value of a run of ASCII digits. -/
def digitsValue (ds : List Char) : Nat := ds.foldl (fun n d => 10 * n + (d.toNat - '0'.toNat)) 0

/-- A sign, with `true` for minus, and what follows it. -/
def takeSign : List Char → Bool × List Char
  | '-' :: cs => (true, cs)
  | '+' :: cs => (false, cs)
  | cs => (false, cs)

/-- The fraction after the whole digits, and what follows it. -/
def takeFraction : List Char → List Char × List Char
  | '.' :: cs => cs.span Char.isDigit
  | cs => ([], cs)

/-- The exponent that ends a numeral; nothing at all is the exponent zero. -/
def exponent? : List Char → Option Int
  | [] => some 0
  | c :: cs =>
    let (negative, ds) := takeSign cs
    if (c = 'e' || c = 'E') && !ds.isEmpty && ds.all Char.isDigit then
      let n : Int := digitsValue ds
      some (if negative then -n else n)
    else none

/-- An unsigned numeral in digits. -/
def decimal? (cs : List Char) : Option Decimal :=
  let (whole, cs) := cs.span Char.isDigit
  let (fraction, cs) := takeFraction cs
  if whole.isEmpty && fraction.isEmpty then none
  else (exponent? cs).map fun e => ⟨digitsValue (whole ++ fraction), e - fraction.length⟩

/-- An unsigned numeral in a word, in any case of letters; no number has no sign. -/
def word? (negative : Bool) (cs : List Char) : Option Binary64 :=
  match String.ofList (cs.map Char.toLower) with
  | "inf" | "infinity" => some (.signed negative .infinity)
  | "nan" => some .nan
  | _ => none

/-- An unsigned numeral, given its sign. -/
def unsigned? (negative : Bool) (cs : List Char) : Option Binary64 :=
  (word? negative cs).or ((decimal? cs).map fun d => .signed negative d.nearest)

/-- The number that a text is a numeral of. -/
def read (text : String) : Option Binary64 := do
  let plain ← text.toList.mapM plainChar?
  let cs ← withoutUnderscores false (trimBoth isPlainSpace plain)
  let (negative, cs) := takeSign cs
  unsigned? negative cs

end AelSyntax.Numeral
