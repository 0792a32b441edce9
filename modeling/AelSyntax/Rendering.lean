import AelSyntax.Grammar.Rules
import AelSyntax.Tree.Outline
import AelSyntax.Tree.Record

/-! # Renderings of a program text

A program text is rendered as the outline of its tree, as the record of its tree in JSON, or as the
list of its tokens, one on a line with its place and kind. -/

namespace AelSyntax

/-- The forms of a rendering. -/
inductive Format where
  | tree
  | json
  | tokens
deriving DecidableEq

namespace Format

/-- The name of a form. -/
def name : Format → String
  | tree => "tree"
  | json => "json"
  | tokens => "tokens"

/-- The form of a name. -/
def ofName? (s : String) : Option Format := [tree, json, tokens].find? fun f => f.name == s

theorem ofName?_name (f : Format) : ofName? f.name = some f := by cases f <;> rfl

end Format

/-- A token on a line with its place and its kind. -/
def Token.line (t : Token) : String :=
  toString t.place.line ++ ":" ++ toString t.place.column ++ "\t" ++ t.kind.name ++ "\t" ++ t.text

/-- The rendering of a program text in one of the forms. -/
def render (source : String) : Format → Except Fault String
  | .tree => (Program.ofText source).map Program.picture
  | .json => (Program.ofText source).map fun p => p.record.toText
  | .tokens => (cleanTokens source).map fun ts => String.intercalate "\n" (ts.map Token.line)

/-- A rendering shows no more of a text than its tokens. -/
theorem render_congr {source source' : String} (h : tokensOf source = tokensOf source')
    (form : Format) : render source form = render source' form := by
  cases form <;> simp only [render, Program.ofText, cleanTokens, h]

end AelSyntax
