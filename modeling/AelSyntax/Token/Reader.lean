import AelSyntax.Token.Pieces

/-! # Reading a text step by step

A reader holds a text and goes through it, one character or one token at a time. It may be started
at any position and at any place. A position before the text counts from its end, so that the
character at `-1` is the last one; but only the plain step reads there: nothing can be seen ahead of
a step from such a position, and the lexeme found there is a number without digits. An index is a
signed number of 64 bits, so far enough before the text there is not even an index to read at. -/

namespace AelSyntax

open AelSyntax.Text

/-- A text and how far it has been read. -/
structure Reader where
  source : List Char
  position : Int
  place : Place

/-- Why a character cannot be read. -/
inductive ReadFault where
  | pastEnd (position line : Int)
  | beforeStart
  | noIndex
deriving DecidableEq

/-- The message of a fault. -/
def ReadFault.message : ReadFault → String
  | pastEnd position line =>
    "CharacterStreamError: Attempted to read past end of source at position=<" ++
      toString position ++ ">, line=<" ++ toString line ++ ">"
  | beforeStart => "string index out of range"
  | noIndex => "cannot fit 'int' into an index-sized integer"

namespace Reader

variable (r : Reader)

/-! ### Characters -/

/-- A reader at the start of a text. -/
def ofText (source : String) : Reader := ⟨source.toList, 0, .start⟩

/-- Nothing is left to read. -/
def atEnd : Bool := r.source.length ≤ r.position

/-- The character at an index; nothing before or behind the text. -/
def charAt? (index : Int) : Option Char := if index < 0 then none else r.source[index.toNat]?

/-- The character at an offset from the position. -/
def peek (offset : Int) : Option Char := r.charAt? (r.position + offset)

/-- The index of the next character; a position before the text counts from its end. -/
def index : Int := if r.position < 0 then r.position + r.source.length else r.position

/-- The least index. -/
def leastIndex : Int := -9223372036854775808

/-- Why no character can be read from a position before the text. -/
def indexFault? : Option ReadFault :=
  if r.position < leastIndex then some .noIndex
  else if r.index < 0 then some .beforeStart
  else none

/-- The reader after a run of characters. -/
def past (cs : List Char) : Reader := ⟨r.source, r.position + cs.length, r.place.afterAll cs⟩

/-- The next character, and the reader after it. -/
def next : Except ReadFault (Char × Reader) :=
  if r.atEnd then .error (.pastEnd r.position r.place.line)
  else
    match r.indexFault?, r.charAt? r.index with
    | none, some c => .ok (c, r.past [c])
    | fault, _ => .error (fault.getD .beforeStart)

/-- The characters that can be seen from the position on. -/
def ahead : List Char := if r.position < 0 then [] else r.source.drop r.position.toNat

/-! ### Gaps and lexemes -/

/-- The reader after the gap that begins at the position. -/
def skipGap : Reader := r.past (splitGap false r.ahead).1

/-- The characters before the text that a reader passes before it comes to the text. -/
def behind : List Char := if r.position < 0 then r.source.drop r.index.toNat else []

/-- The reader at the end of the line. From a position before the text the characters up to its end
are passed first, whatever they are. -/
def skipLine : Except ReadFault Reader :=
  match r.indexFault? with
  | some fault => .error fault
  | none => .ok (r.past (r.behind ++ (r.source.drop r.position.toNat).takeWhile (· ≠ '\n')))

/-- A lexeme as a token at the position, and the reader after it. -/
def takeLexeme (l : Lexeme) : Token × Reader :=
  (⟨l.kind, String.ofList l.chars, r.place⟩, r.past l.chars)

/-- The operator or parenthesis at the position, if there is one, and the reader after it. -/
def operator? : Option (Token × Reader) :=
  match r.ahead with
  | [] => none
  | c :: cs => (Lexeme.operator? c cs).map fun l => r.takeLexeme l.1

/-- The next token, and the reader after it. -/
def nextToken : Token × Reader :=
  let s := r.skipGap
  if s.atEnd then (.finish s.place, s)
  else
    match s.ahead with
    | [] => s.takeLexeme ⟨.number, []⟩
    | c :: cs => s.takeLexeme (Lexeme.scan c cs).1

/-- All tokens up to the end, and the reader there. From a position before the text the end is never
reached. -/
def tokens? : Option (List Token × Reader) :=
  if r.position < 0 then none else some (tokensFrom r.place r.ahead, r.past r.ahead)

end Reader

end AelSyntax
