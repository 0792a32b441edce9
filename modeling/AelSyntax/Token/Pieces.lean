import AelSyntax.Token.Lexeme

/-! # A text in pieces

A text is cut into pieces, each a gap followed by a lexeme, and a last gap. A gap is the longest run
of layout characters and comments; a comment is two slashes with all that follows on their line. The
tokens are the lexemes with the places where they begin, and the end of the text.

* `splitGap`: the gap at the beginning of a text, and the rest.
* `cut`: the pieces of a text and its last gap.
* `tokensFrom`, `tokensOf`: the tokens of a text, read from a place or from the start. -/

namespace AelSyntax

open AelSyntax.Text

/-- A gap and the lexeme after it. -/
structure Piece where
  gap : List Char
  lexeme : Lexeme
deriving DecidableEq

/-! ### Gaps -/

/-- A text begins with a comment. -/
def beginsComment : List Char → Bool
  | '/' :: '/' :: _ => true
  | _ => false

/-- The text behind the first character begins inside a comment, given whether the whole does. -/
def commentGoesOn (inComment : Bool) (c : Char) (cs : List Char) : Bool :=
  if inComment then c != '\n' else beginsComment (c :: cs)

/-- The first character belongs to a gap, given whether it stands inside a comment. -/
def belongsToGap (inComment : Bool) (c : Char) (cs : List Char) : Bool :=
  inComment || beginsComment (c :: cs) || isLayout c

/-- The gap at the beginning of a text, and the rest; the first argument says whether the text
begins inside a comment. -/
def splitGap : Bool → List Char → List Char × List Char
  | _, [] => ([], [])
  | inComment, c :: cs =>
    if belongsToGap inComment c cs then
      let (gap, rest) := splitGap (commentGoesOn inComment c cs) cs
      (c :: gap, rest)
    else ([], c :: cs)

/-- A gap and the rest make up the text. -/
theorem splitGap_append (inComment : Bool) (cs : List Char) :
    (splitGap inComment cs).1 ++ (splitGap inComment cs).2 = cs := by
  induction cs generalizing inComment with
  | nil => rfl
  | cons c cs ih =>
    rw [splitGap]
    split
    · simp [ih]
    · rfl

theorem length_splitGap_le (inComment : Bool) (cs : List Char) :
    (splitGap inComment cs).2.length ≤ cs.length := by
  have h := congrArg List.length (splitGap_append inComment cs)
  rw [List.length_append] at h
  omega

/-! ### Pieces -/

theorem length_scan_lt_of_splitGap {cs : List Char} {c : Char} {rest : List Char}
    (h : (splitGap false cs).2 = c :: rest) : (Lexeme.scan c rest).2.length < cs.length := by
  have := length_splitGap_le false cs
  rw [h] at this
  exact Nat.lt_of_lt_of_le (Lexeme.length_scan_lt c rest) this

/-- The pieces of a text and its last gap. -/
def cut (cs : List Char) : List Piece × List Char :=
  let gap := (splitGap false cs).1
  match h : (splitGap false cs).2 with
  | [] => ([], gap)
  | c :: rest =>
    let found := Lexeme.scan c rest
    have : found.2.length < cs.length := length_scan_lt_of_splitGap h
    let (pieces, last) := cut found.2
    (⟨gap, found.1⟩ :: pieces, last)
termination_by cs.length

/-! ### Tokens -/

/-- The lexemes of the pieces with their places, and the end of the text. -/
def placed (p : Place) : List Piece → List Char → List Token
  | [], last => [.finish (p.afterAll last)]
  | ⟨gap, lexeme⟩ :: pieces, last =>
    let here := p.afterAll gap
    ⟨lexeme.kind, String.ofList lexeme.chars, here⟩ ::
      placed (here.afterAll lexeme.chars) pieces last

/-- The tokens of a text that is read from a place on. -/
def tokensFrom (p : Place) (cs : List Char) : List Token :=
  let (pieces, last) := cut cs
  placed p pieces last

/-- The tokens of a text. -/
def tokensOf (source : String) : List Token := tokensFrom .start source.toList

end AelSyntax
