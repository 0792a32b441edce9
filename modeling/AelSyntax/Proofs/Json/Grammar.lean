import AelSyntax.Proofs.Text.Utf16
import AelSyntax.Proofs.Token.Longest
import Mathlib.Tactic.Common

/-! # The grammar of JSON

    text     = padded
    padded   = { blank }, value, { blank }
    value    = scalar | string | "[", list | "{", record
    list     = { blank }, "]" | items
    items    = padded, "]" | padded, ",", items
    record   = { blank }, "}" | members
    members  = member, "}" | member, ",", members
    member   = { blank }, string, { blank }, ":", padded
    scalar   = numeral | name
    numeral  = [ "-" ], whole, [ ".", digits ], [ ( "e" | "E" ), [ "-" | "+" ], digits ]
    whole    = "0" | digit other than "0", { digit }

A string is a quotation mark, characters and escapes, and a quotation mark; it stands for units of
UTF-16, which are not always those of characters. The names of the standard are `true`, `false` and
`null`. Some writers know more of them, so the grammar is given for any list of names.

A relation of the grammar holds of the text where a phrase begins, of what the phrase stands for and
of the text behind it. Nothing in it says how a phrase is found, or that there is only one. -/

namespace AelSyntax.Json

open AelSyntax.Text

/-- What a text of JSON stands for: scalars are kept as they are spelled, strings as their units. -/
inductive Term where
  | scalar (chars : List Char)
  | text (units : List Nat)
  | list (items : List Term)
  | record (members : List (List Nat × Term))

/-! ### Blanks -/

/-- A space, a tab, a newline or a carriage return. -/
def isBlank (c : Char) : Bool := c = ' ' || c = '\t' || c = '\n' || c = '\r'

/-- Blanks in front of a text, none or more. -/
def Blanks (s t : List Char) : Prop := ∃ blanks, (∀ c ∈ blanks, isBlank c = true) ∧ s = blanks ++ t

/-! ### Scalars -/

/-- Digits without a zero in front. -/
inductive IsWhole : List Char → Prop
  | zero : IsWhole ['0']
  | digits {d : Char} {ds : List Char} (hd : d.isDigit = true) (hzero : d ≠ '0')
    (hds : ∀ c ∈ ds, c.isDigit = true) : IsWhole (d :: ds)

/-- A point and digits, or nothing. -/
inductive IsFraction : List Char → Prop
  | none : IsFraction []
  | some {ds : List Char} (hds : IsDigits ds) : IsFraction ('.' :: ds)

/-- The letter of an exponent, a sign if there is one, and digits, or nothing. -/
inductive IsExponent : List Char → Prop
  | none : IsExponent []
  | some {e : Char} {sign ds : List Char} (he : e = 'e' ∨ e = 'E')
    (hsign : sign ∈ [[], ['-'], ['+']]) (hds : IsDigits ds) : IsExponent (e :: (sign ++ ds))

/-- A numeral. -/
inductive IsNumeral : List Char → Prop
  | mk {sign whole fraction exponent : List Char} (hsign : sign ∈ [[], ['-']])
    (hwhole : IsWhole whole) (hfraction : IsFraction fraction) (hexponent : IsExponent exponent) :
    IsNumeral (sign ++ (whole ++ (fraction ++ exponent)))

/-- The names of the standard. -/
def standardNames : List String := ["true", "false", "null"]

/-- The names of the standard, and those of the numbers that have no numeral. -/
def extendedNames : List String := standardNames ++ ["NaN", "Infinity", "-Infinity"]

/-- A numeral or one of the names. -/
def IsScalar (names : List String) (cs : List Char) : Prop :=
  IsNumeral cs ∨ String.ofList cs ∈ names

/-! ### Strings -/

/-- The value of a hexadecimal digit, with letters of either case. -/
def hexDigitValue? (c : Char) : Option Nat :=
  if c.isDigit then some (c.toNat - '0'.toNat)
  else if 'a' ≤ c ∧ c ≤ 'f' then some (10 + (c.toNat - 'a'.toNat))
  else if 'A' ≤ c ∧ c ≤ 'F' then some (10 + (c.toNat - 'A'.toNat))
  else none

/-- The value of a run of hexadecimal digits. -/
def hexValue (hs : List Char) : Nat := hs.foldl (fun n h => 16 * n + (hexDigitValue? h).getD 0) 0

/-- The unit that an escape of one character stands for. -/
def escapedUnit? : Char → Option Nat
  | '"' => some 0x22
  | '\\' => some 0x5C
  | '/' => some 0x2F
  | 'b' => some 0x8
  | 'f' => some 0xC
  | 'n' => some 0xA
  | 'r' => some 0xD
  | 't' => some 0x9
  | _ => none

/-- Characters and escapes up to the quotation mark that closes a string. -/
inductive Characters : List Char → List Nat → List Char → Prop
  | closed (t : List Char) : Characters ('"' :: t) [] t
  | plain {c : Char} {s t : List Char} {us : List Nat} (hc : ' ' ≤ c) (hquote : c ≠ '"')
    (hslash : c ≠ '\\') (h : Characters s us t) : Characters (c :: s) (utf16 c ++ us) t
  | escaped {e : Char} {u : Nat} {s t : List Char} {us : List Nat} (he : escapedUnit? e = some u)
    (h : Characters s us t) : Characters ('\\' :: e :: s) (u :: us) t
  | unit {s hs s₁ t : List Char} {us : List Nat} (hlength : hs.length = 4)
    (hhex : ∀ h ∈ hs, (hexDigitValue? h).isSome = true) (hsplit : s = hs ++ s₁)
    (h : Characters s₁ us t) : Characters ('\\' :: 'u' :: s) (hexValue hs :: us) t

/-! ### Values -/

mutual

/-- A value. -/
inductive IsValue (names : List String) : List Char → Term → List Char → Prop
  | scalar {s cs t : List Char} (h : IsScalar names cs) (hs : s = cs ++ t) :
    IsValue names s (.scalar cs) t
  | text {s t : List Char} {us : List Nat} (h : Characters s us t) :
    IsValue names ('"' :: s) (.text us) t
  | emptyList {s t : List Char} (h : Blanks s (']' :: t)) : IsValue names ('[' :: s) (.list []) t
  | list {s t : List Char} {xs : List Term} (h : IsItems names s xs t) :
    IsValue names ('[' :: s) (.list xs) t
  | emptyRecord {s t : List Char} (h : Blanks s ('\x7d' :: t)) :
    IsValue names ('\x7b' :: s) (.record []) t
  | record {s t : List Char} {ms : List (List Nat × Term)} (h : IsMembers names s ms t) :
    IsValue names ('\x7b' :: s) (.record ms) t

/-- A value with blanks around it. -/
inductive IsPadded (names : List String) : List Char → Term → List Char → Prop
  | mk {s s₁ s₂ t : List Char} {x : Term} (hbefore : Blanks s s₁) (h : IsValue names s₁ x s₂)
    (hafter : Blanks s₂ t) : IsPadded names s x t

/-- The items of a list that is not empty, and its closing bracket. -/
inductive IsItems (names : List String) : List Char → List Term → List Char → Prop
  | last {s t : List Char} {x : Term} (h : IsPadded names s x (']' :: t)) : IsItems names s [x] t
  | more {s s₁ t : List Char} {x : Term} {xs : List Term} (h : IsPadded names s x (',' :: s₁))
    (hxs : IsItems names s₁ xs t) : IsItems names s (x :: xs) t

/-- A key and its value. -/
inductive IsMember (names : List String) : List Char → List Nat × Term → List Char → Prop
  | mk {s s₁ s₂ s₃ t : List Char} {key : List Nat} {x : Term} (hbefore : Blanks s ('"' :: s₁))
    (hkey : Characters s₁ key s₂) (hcolon : Blanks s₂ (':' :: s₃)) (h : IsPadded names s₃ x t) :
    IsMember names s (key, x) t

/-- The members of a record that is not empty, and its closing brace. -/
inductive IsMembers (names : List String) : List Char → List (List Nat × Term) → List Char → Prop
  | last {s t : List Char} {m : List Nat × Term} (h : IsMember names s m ('\x7d' :: t)) :
    IsMembers names s [m] t
  | more {s s₁ t : List Char} {m : List Nat × Term} {ms : List (List Nat × Term)}
    (h : IsMember names s m (',' :: s₁)) (hms : IsMembers names s₁ ms t) :
    IsMembers names s (m :: ms) t

end

/-- A text of JSON. -/
def IsText (names : List String) (s : List Char) (x : Term) : Prop := IsPadded names s x []

end AelSyntax.Json
