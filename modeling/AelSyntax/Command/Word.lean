import AelSyntax.Command.Flag
import AelSyntax.Text.Digit

/-! # The words of a command line

Each argument is sorted by its form alone. A short option is a dash and a letter, and what follows
it is joined to it. A long option is two dashes and a word, which may be cut down to a prefix that
no other option has; a value may be joined to it by an equals sign. After the argument `--` there
are no more options. An argument that begins with a dash is no option if it is the dash alone, a
negative number, or holds a blank.

* `Word.classify`: the words of some arguments. -/

namespace AelSyntax

/-- An argument by its form. An option may be written in its short form, and a value may be joined
to it. -/
inductive Word where
  | option (flag : Flag) (short : Bool) (joined : Option (List Char))
  | unknownOption (argument : String)
  | plain (argument : String)
  | divider
deriving DecidableEq

namespace Word

/-- The characters up to an equals sign and those behind it, if there is one. -/
def atEquals? (cs : List Char) : Option (List Char × List Char) :=
  match cs.span (· ≠ '=') with
  | (before, '=' :: after) => some (before, after)
  | _ => none

/-- The option that is written out in full. -/
def whole? (cs : List Char) : Option (Flag × Bool) :=
  match cs with
  | ['-', c] => (Flag.ofLetter? c).map fun f => (f, true)
  | _ => (Flag.all.find? fun f => f.long.toList = cs).map fun f => (f, false)

/-- The option that is written in full, with or without a value behind an equals sign. -/
def full? (cs : List Char) : Option Word :=
  match whole? cs with
  | some (f, short) => some (.option f short none)
  | none => do
    let (before, after) ← atEquals? cs
    let (f, short) ← whole? before
    some (.option f short (some after))

/-- The short option that a text begins with, with the rest as its value. -/
def shortStart? : List Char → Option Word
  | '-' :: c :: cs => (Flag.ofLetter? c).map fun f => .option f true (some cs)
  | _ => none

/-- The long options that a text is a prefix of, up to an equals sign. -/
def longStarts (cs : List Char) : List Flag × Option (List Char) :=
  match atEquals? cs with
  | some (before, after) => (Flag.withLong (String.ofList before), some after)
  | none => (Flag.withLong (String.ofList cs), none)

/-- A minus sign and digits, perhaps with a point before the last of them, and perhaps a newline. -/
def isNegativeNumber : List Char → Bool
  | '-' :: cs =>
    let isDigit (c : Char) := (Text.digitValue? c).isSome
    let cs := if cs.getLast? = some '\n' then cs.dropLast else cs
    match cs.span isDigit with
    | (ds, []) => !ds.isEmpty
    | (_, '.' :: ds) => !ds.isEmpty && ds.all isDigit
    | _ => false
  | _ => false

/-- An argument that begins with a dash and is no known option. -/
def unknown (argument : String) (cs : List Char) : Word :=
  if isNegativeNumber cs || ' ' ∈ cs then .plain argument else .unknownOption argument

/-- The form of one argument before the divider. -/
def ofArgument (argument : String) : Except UsageFault Word :=
  let cs := argument.toList
  match cs with
  | '-' :: second :: _ =>
    match full? cs with
    | some w => .ok w
    | none =>
      if second = '-' then
        match longStarts cs with
        | ([], _) => .ok (unknown argument cs)
        | ([f], joined) => .ok (.option f false joined)
        | (flags, _) => .error (.ambiguous argument flags)
      else .ok ((shortStart? cs).getD (unknown argument cs))
  | _ => .ok (.plain argument)

/-- The forms of the arguments. -/
def classify : List String → Except UsageFault (List Word)
  | [] => .ok []
  | a :: as =>
    if a = "--" then .ok (.divider :: as.map .plain)
    else do
      let w ← ofArgument a
      let ws ← classify as
      .ok (w :: ws)

/-- An argument as it was typed, if it belongs to nothing. -/
def leftover : Word → List String
  | .plain a => [a]
  | .unknownOption a => [a]
  | .divider => ["--"]
  | .option .. => []

end Word

end AelSyntax
