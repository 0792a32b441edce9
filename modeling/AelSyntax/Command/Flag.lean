import AelSyntax.Text.Quoted

/-! # The options of the command

An option has a word, after two dashes, and some have a letter, after one. Two of them take a value.
What is wrong with an option, or with the arguments as a whole, is a usage fault. -/

namespace AelSyntax

/-- The options of the command. -/
inductive Flag where
  | help
  | text
  | format
  | out
  | pretty
  | session
  | verbose
deriving DecidableEq

namespace Flag

/-- All options in the order of the help text. -/
def all : List Flag := [help, text, format, out, pretty, session, verbose]

/-- The letter of an option. -/
def letter? : Flag → Option Char
  | help => some 'h'
  | text => some 's'
  | format => some 'f'
  | out => some 'o'
  | pretty => some 'p'
  | session => none
  | verbose => none

/-- The word of an option, with its dashes. -/
def long : Flag → String
  | help => "--help"
  | text => "--string"
  | format => "--format"
  | out => "--out"
  | pretty => "--pretty"
  | session => "--repl"
  | verbose => "--verbose"

/-- The option takes a value. -/
def takesValue (f : Flag) : Bool := f = format || f = out

/-- What a message calls the option. -/
def title (f : Flag) : String :=
  match f.letter? with
  | some c => String.ofList ['-', c, '/'] ++ f.long
  | none => f.long

/-- The option of a letter. -/
def ofLetter? (c : Char) : Option Flag := all.find? fun f => f.letter? = some c

/-- The options whose words begin with a prefix. -/
def withLong (start : String) : List Flag := all.filter fun f => f.long.startsWith start

end Flag

/-- What is wrong with the arguments. -/
inductive UsageFault where
  | ambiguous (argument : String) (flags : List Flag)
  | ignoredValue (flag : Flag) (value : String)
  | missingValue (flag : Flag)
  | invalidChoice (value : String)
  | unrecognized (arguments : List String)
deriving DecidableEq

/-- The message of a fault. -/
def UsageFault.message : UsageFault → String
  | ambiguous argument flags =>
    "ambiguous option: " ++ argument ++ " could match " ++
      String.intercalate ", " (flags.map Flag.long)
  | ignoredValue f v => "argument " ++ f.title ++ ": ignored explicit argument " ++ Text.quoted v
  | missingValue f => "argument " ++ f.title ++ ": expected one argument"
  | invalidChoice v =>
    "argument " ++ Flag.format.title ++ ": invalid choice: " ++ Text.quoted v ++
      " (choose from 'tree', 'json', 'tokens')"
  | unrecognized arguments => "unrecognized arguments: " ++ String.intercalate " " arguments

end AelSyntax
