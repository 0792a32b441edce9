import AelSyntax.Number.Written
import AelSyntax.Text.Hexadecimal

/-! # JSON

A JSON value with its members in order. It is written over several lines, two spaces deeper for
every list or record it stands in, and in the printable characters of ASCII alone: any other one is
escaped, most of them by their UTF-16 units. A number without end or that is none is written as a
word, which no other value is. -/

namespace AelSyntax

/-- A JSON value. -/
inductive Json where
  | integer (n : Int)
  | real (x : Binary64)
  | text (s : String)
  | list (items : List Json)
  | record (members : List (String × Json))

namespace Json

/-! ### Texts -/

/-- The escape of one UTF-16 unit. -/
def unitEscape (n : Nat) : List Char := '\\' :: 'u' :: Text.hexDigits 4 n

/-- One character of a text. -/
def textChar (c : Char) : List Char :=
  if c = '"' || c = '\\' then ['\\', c]
  else if c = '\n' then ['\\', 'n']
  else if c = '\r' then ['\\', 'r']
  else if c = '\t' then ['\\', 't']
  else if c = '\x08' then ['\\', 'b']
  else if c = '\x0c' then ['\\', 'f']
  else if ' ' ≤ c && c.toNat < 127 then [c]
  else if c.toNat < 0x10000 then unitEscape c.toNat
  else
    let n := c.toNat - 0x10000
    unitEscape (0xD800 + n / 0x400) ++ unitEscape (0xDC00 + n % 0x400)

/-- A text between its quotes. -/
def writtenText (s : String) : List Char := '"' :: s.toList.flatMap textChar ++ ['"']

/-- A number, infinity by a word of its own. -/
def writtenReal : Binary64 → List Char
  | .nan => ['N', 'a', 'N']
  | .signed negative m =>
    Binary64.withSign negative
      (if m.isInfinite then "Infinity".toList else NumberStyle.standard.magnitude m)

/-! ### Values -/

/-- The beginning of a line at a depth. -/
def newLine (depth : Nat) : List Char := '\n' :: List.replicate (2 * depth) ' '

/-- The parts of a list or record on lines of their own, between brackets. -/
def bracketed (opening closing : Char) (depth : Nat) (parts : List (List Char)) : List Char :=
  if parts.isEmpty then [opening, closing]
  else
    opening :: (newLine (depth + 1) ++ List.intercalate (',' :: newLine (depth + 1)) parts ++
      newLine depth ++ [closing])

mutual

/-- A value at a depth. -/
def written (depth : Nat) : Json → List Char
  | integer n => (toString n).toList
  | real x => writtenReal x
  | text s => writtenText s
  | list items => bracketed '[' ']' depth (writtenItems (depth + 1) items)
  | record members => bracketed '\x7b' '\x7d' depth (writtenMembers (depth + 1) members)

/-- The items of a list at a depth. -/
def writtenItems (depth : Nat) : List Json → List (List Char)
  | [] => []
  | item :: items => written depth item :: writtenItems depth items

/-- The members of a record at a depth. -/
def writtenMembers (depth : Nat) : List (String × Json) → List (List Char)
  | [] => []
  | (key, value) :: members =>
    (writtenText key ++ ':' :: ' ' :: written depth value) :: writtenMembers depth members

end

/-- The text of a value. -/
def toText (j : Json) : String := String.ofList (j.written 0)

end Json

end AelSyntax
