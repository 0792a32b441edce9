import AelSyntax.Text.Hexadecimal
import AelSyntax.Text.Printable

/-! # Quoted texts

A text inside a message or a tree stands between single quotes, or between double quotes if it
holds a single quote and no double quote. A backslash escapes itself and the surrounding quote;
newline, carriage return and tab have short escapes; any other character that is not printable is
written by its code point, in two, four or eight lower-case hexadecimal digits. -/

namespace AelSyntax.Text

/-- The escape of a code point. -/
def codePointEscape (n : Nat) : List Char :=
  if n < 0x100 then '\\' :: 'x' :: hexDigits 2 n
  else if n < 0x10000 then '\\' :: 'u' :: hexDigits 4 n
  else '\\' :: 'U' :: hexDigits 8 n

/-- One character of a text between the given quotes. -/
def quotedChar (quote c : Char) : List Char :=
  if c = quote || c = '\\' then ['\\', c]
  else if c = '\n' then ['\\', 'n']
  else if c = '\r' then ['\\', 'r']
  else if c = '\t' then ['\\', 't']
  else if isPrintable c then [c]
  else codePointEscape c.toNat

/-- The quotes put around a text. -/
def quoteFor (cs : List Char) : Char :=
  if '\'' ∈ cs ∧ '"' ∉ cs then '"' else '\''

/-- A text in quotes. -/
def quoted (s : String) : String :=
  let cs := s.toList
  let quote := quoteFor cs
  String.ofList (quote :: cs.flatMap (quotedChar quote) ++ [quote])

end AelSyntax.Text
