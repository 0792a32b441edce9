/-! # Line ends

Inside the program a line ends with a newline. A text that comes from a file may end its lines with
a carriage return, alone or before a newline; both become one newline. -/

namespace AelSyntax.Text

/-- The characters with every line end written as one newline. -/
def newlinesOnly : List Char → List Char
  | [] => []
  | '\r' :: '\n' :: cs => '\n' :: newlinesOnly cs
  | '\r' :: cs => '\n' :: newlinesOnly cs
  | c :: cs => c :: newlinesOnly cs

/-- A text with every line end written as one newline. -/
def withNewlines (s : String) : String := String.ofList (newlinesOnly s.toList)

end AelSyntax.Text
