import AelSyntax.Token.Basic
import AelSyntax.Tree.Basic

/-! # Faults of a program text

A text is no program because of a character that begins no token, because of a token that fits no
rule where it stands, or because of an expression that is nested too deeply; each has a place. Apart
from these, a list of tokens that was made by hand may hold an operator or a numeral whose text does
not belong to its kind, so that a node cannot be built.

A diagnostic is what is shown of a fault: its family, a description and a place. -/

namespace AelSyntax

/-- Why a text is no program. -/
inductive Refusal where
  | unexpectedCharacter (text : String)
  | expected (what : String) (found : Token)
  | nestedTooDeeply
deriving DecidableEq

/-- The families of diagnostics: of the text, of the grammar, or of neither. -/
inductive Family where
  | lexical
  | grammatical
  | general
deriving DecidableEq

namespace Refusal

/-- The family of a refusal. -/
def family : Refusal → Family
  | unexpectedCharacter _ => .lexical
  | _ => .grammatical

/-- The description of a refusal. -/
def description : Refusal → String
  | unexpectedCharacter s => "Unexpected character " ++ Text.quoted s
  | expected what found => "Expected " ++ what ++ ", got " ++ found.description
  | nestedTooDeeply => "Expression nested too deeply"

end Refusal

/-- A family, a description and a place. -/
structure Diagnostic where
  family : Family
  description : String
  place : Place
deriving DecidableEq

/-- The message of a diagnostic: its description behind its place. -/
def Diagnostic.message (d : Diagnostic) : String :=
  "Line " ++ toString d.place.line ++ ", col " ++ toString d.place.column ++ ": " ++ d.description

/-- Why a list of tokens gives no tree. -/
inductive Fault where
  | refused (reason : Refusal) (place : Place)
  | malformed (reason : Malformed)
deriving DecidableEq

namespace Fault

/-- The diagnostic of a fault that has a place. -/
def diagnostic? : Fault → Option Diagnostic
  | refused r p => some ⟨r.family, r.description, p⟩
  | malformed _ => none

/-- The message of a fault. -/
def message : Fault → String
  | refused r p => Diagnostic.message ⟨r.family, r.description, p⟩
  | malformed m => m.message

end Fault

/-- The fault of a token that is not what the grammar expects. A character that begins no token is
refused as such, whatever was expected. -/
def Token.refusal (t : Token) (expected : String) : Fault :=
  if t.kind = .unknown then .refused (.unexpectedCharacter t.text) t.place
  else .refused (.expected expected t) t.place

end AelSyntax
