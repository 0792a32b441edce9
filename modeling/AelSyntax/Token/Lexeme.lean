import AelSyntax.Text.Blank
import AelSyntax.Text.Letter
import AelSyntax.Token.Basic

/-! # Lexemes

A lexeme is a word, a number, an operator or a parenthesis. At every point of a text the longest one
is taken: a word runs on over letters and digits, so that `lets` is no `let`, a number has a
fraction only if a digit follows the point, and an operator of two characters comes before one of a
single character. A character that begins none of these is a lexeme of its own.

* `Lexeme.scan`: the lexeme at the beginning of a text, and the rest.
* `Lexeme.scan_append`, `Lexeme.chars_scan_ne_nil`: nothing is lost, and the lexeme is not empty. -/

namespace AelSyntax

open AelSyntax.Text

/-- A kind with the characters it was read from. -/
structure Lexeme where
  kind : Kind
  chars : List Char
deriving DecidableEq

namespace Lexeme

/-! ### Tables -/

/-- The kind of a word. -/
def wordKind : List Char → Kind
  | ['l', 'e', 't'] => .letWord
  | ['p', 'r', 'i', 'n', 't'] => .printWord
  | ['a', 'b', 's'] => .absWord
  | ['s', 'q', 'r', 't'] => .sqrtWord
  | _ => .identifier

/-- The kind of an operator or a parenthesis. -/
def operatorKind? : List Char → Option Kind
  | ['=', '='] => some .equals
  | ['*', '*'] => some .power
  | ['='] => some .assign
  | ['+'] => some .plus
  | ['-'] => some .minus
  | ['*'] => some .times
  | ['/'] => some .divide
  | ['%'] => some .modulo
  | ['('] => some .openParen
  | [')'] => some .closeParen
  | _ => none

/-! ### One lexeme -/

/-- The fraction at the beginning of a text, if a digit follows the point, and the rest. -/
def fraction : List Char → List Char × List Char
  | '.' :: c :: cs =>
    if c.isDigit then ('.' :: c :: cs.takeWhile Char.isDigit, cs.dropWhile Char.isDigit)
    else ([], '.' :: c :: cs)
  | cs => ([], cs)

/-- The word with a given first letter, and the rest. -/
def word (c : Char) (cs : List Char) : Lexeme × List Char :=
  let chars := c :: cs.takeWhile isWordPart
  (⟨wordKind chars, chars⟩, cs.dropWhile isWordPart)

/-- The number with a given first digit, and the rest. -/
def number (c : Char) (cs : List Char) : Lexeme × List Char :=
  let (decimals, rest) := fraction (cs.dropWhile Char.isDigit)
  (⟨.number, c :: (cs.takeWhile Char.isDigit ++ decimals)⟩, rest)

/-- The operator or parenthesis of one character, and the rest. -/
def shortOperator? (c : Char) (cs : List Char) : Option (Lexeme × List Char) :=
  (operatorKind? [c]).map fun k => (⟨k, [c]⟩, cs)

/-- The longest operator or parenthesis at the beginning of a text, and the rest. -/
def operator? (c : Char) : List Char → Option (Lexeme × List Char)
  | [] => shortOperator? c []
  | d :: cs =>
    match operatorKind? [c, d] with
    | some k => some (⟨k, [c, d]⟩, cs)
    | none => shortOperator? c (d :: cs)

/-- The lexeme at the beginning of a text, given its first character, and the rest. -/
def scan (c : Char) (cs : List Char) : Lexeme × List Char :=
  if isLetter c then word c cs
  else if c.isDigit then number c cs
  else (operator? c cs).getD (⟨.unknown, [c]⟩, cs)

/-! ### Nothing is lost -/

theorem fraction_append (cs : List Char) : (fraction cs).1 ++ (fraction cs).2 = cs := by
  unfold fraction
  split
  · split
    · simp [List.takeWhile_append_dropWhile]
    · rfl
  · rfl

theorem word_append (c : Char) (cs : List Char) :
    (word c cs).1.chars ++ (word c cs).2 = c :: cs := by
  simp [word, List.takeWhile_append_dropWhile]

theorem number_append (c : Char) (cs : List Char) :
    (number c cs).1.chars ++ (number c cs).2 = c :: cs := by
  simp [number, fraction_append, List.takeWhile_append_dropWhile]

theorem shortOperator?_append {c : Char} {cs : List Char} {r : Lexeme × List Char}
    (h : shortOperator? c cs = some r) : r.1.chars ++ r.2 = c :: cs := by
  obtain ⟨k, -, rfl⟩ := Option.map_eq_some_iff.1 h
  rfl

theorem operator?_append {c : Char} {cs : List Char} {r : Lexeme × List Char}
    (h : operator? c cs = some r) : r.1.chars ++ r.2 = c :: cs := by
  cases cs with
  | nil => exact shortOperator?_append h
  | cons d cs =>
    rw [operator?] at h
    split at h
    · cases h; rfl
    · exact shortOperator?_append h

/-- A lexeme and the rest make up the text. -/
theorem scan_append (c : Char) (cs : List Char) :
    (scan c cs).1.chars ++ (scan c cs).2 = c :: cs := by
  unfold scan
  split
  · exact word_append c cs
  · split
    · exact number_append c cs
    · cases h : operator? c cs with
      | none => rfl
      | some r => exact operator?_append h

theorem chars_operator?_ne_nil {c : Char} {cs : List Char} {r : Lexeme × List Char}
    (h : operator? c cs = some r) : r.1.chars ≠ [] := by
  have short : ∀ {cs r}, shortOperator? c cs = some r → r.1.chars ≠ [] := by
    intro cs r h
    obtain ⟨k, -, rfl⟩ := Option.map_eq_some_iff.1 h
    simp
  cases cs with
  | nil => exact short h
  | cons d cs =>
    rw [operator?] at h
    split at h
    · cases h; simp
    · exact short h

/-- A lexeme is not empty. -/
theorem chars_scan_ne_nil (c : Char) (cs : List Char) : (scan c cs).1.chars ≠ [] := by
  unfold scan
  split
  · simp [word]
  · split
    · simp [number]
    · cases h : operator? c cs with
      | none => simp
      | some r => exact chars_operator?_ne_nil h

/-- The rest after a lexeme is shorter than the text. -/
theorem length_scan_lt (c : Char) (cs : List Char) :
    (scan c cs).2.length < (c :: cs).length := by
  have h := congrArg List.length (scan_append c cs)
  have := List.length_pos_iff.2 (chars_scan_ne_nil c cs)
  rw [List.length_append] at h
  omega

end Lexeme

end AelSyntax
