/-! # Places in a text

A place is a line and a column. Reading a newline leads to the first column of the next line, any
other character to the next column. A text is usually read from line 1, column 1 on, but a reader
may be started anywhere, so lines and columns are integers without a bound. -/

namespace AelSyntax

/-- A line and a column of a text. -/
structure Place where
  line : Int
  column : Int
deriving DecidableEq

namespace Place

/-- The place where a text begins. -/
def start : Place := ⟨1, 1⟩

/-- The place after one character. -/
def after (p : Place) (c : Char) : Place :=
  if c = '\n' then ⟨p.line + 1, 1⟩ else ⟨p.line, p.column + 1⟩

/-- The place after a run of characters. -/
def afterAll (p : Place) (cs : List Char) : Place := cs.foldl after p

/-- The place a number of columns further on the same line. -/
def columnsOn (p : Place) (n : Nat) : Place := ⟨p.line, p.column + n⟩

@[simp] theorem afterAll_nil (p : Place) : p.afterAll [] = p := rfl

@[simp] theorem afterAll_cons (p : Place) (c : Char) (cs : List Char) :
    p.afterAll (c :: cs) = (p.after c).afterAll cs := rfl

theorem afterAll_append (p : Place) (as bs : List Char) :
    p.afterAll (as ++ bs) = (p.afterAll as).afterAll bs := List.foldl_append

end Place

end AelSyntax
