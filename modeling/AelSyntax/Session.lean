import AelSyntax.Grammar.Rules
import AelSyntax.Text.Blank
import AelSyntax.Tree.Outline

/-! # Interactive sessions

A session reads entries and shows the tree of each. An entry ends with the first line after which it
is not cut short, or before a blank line; it is cut short if a parenthesis is open or if its last
token asks for another one. Some entries are commands: `exit` and `quit` leave the session, and
`verbose-mode` switches the display of tokens on and off.

* `needsMore`: tokens are those of an entry that is cut short.
* `Session.step`: what one event does to a session, and what is shown of it.
* `Session.exchanges`: the prompts of a session with what is shown after each. -/

namespace AelSyntax

open AelSyntax.Text

/-! ### Entries that are cut short -/

/-- A token of the kind is never the last one of a statement. -/
def Kind.asksForMore : Kind → Bool
  | .letWord | .printWord | .absWord | .sqrtWord | .assign | .equals | .plus | .minus | .times
  | .divide | .modulo | .power | .openParen => true
  | _ => false

/-- What a token of the kind adds to the number of open parentheses. -/
def Kind.opens : Kind → Int
  | .openParen => 1
  | .closeParen => -1
  | _ => 0

/-- The tokens without those that stand for the end of a text. -/
def bodyOf (ts : List Token) : List Token := ts.filter fun t => t.kind ≠ .finish

/-- The parentheses that are opened and not closed. -/
def openParens (ts : List Token) : Int := ts.foldl (fun n t => n + t.kind.opens) 0

/-- The tokens are those of an entry that is cut short. -/
def needsMore (ts : List Token) : Bool :=
  let body := bodyOf ts
  if body.any fun t => t.kind = .unknown then false
  else
    match body.getLast? with
    | none => false
    | some last => 0 < openParens body || last.kind.asksForMore

/-- The tokens with their texts, on one line. -/
def echoOf (ts : List Token) : String := String.intercalate " " ((bodyOf ts).map Token.echo)

/-! ### Sessions -/

/-- What is typed at a prompt. -/
inductive Event where
  | line (text : String)
  | endOfInput
  | interrupt
deriving DecidableEq

/-- The lines of the entry so far, and whether tokens are displayed. -/
structure Session where
  verbose : Bool
  entry : List String
deriving DecidableEq

namespace Session

/-- The first lines shown. -/
def banner : String := "Ael REPL. Type 'exit' or 'quit' to leave.\n"

/-- The last line shown. -/
def farewell : String := "Exiting Ael REPL.\n"

/-- A session before its first entry. -/
def fresh (verbose : Bool) : Session := ⟨verbose, []⟩

/-- The prompt, which shows whether an entry has begun. -/
def prompt (s : Session) : String := if s.entry.isEmpty then ">>> " else "... "

/-- The lines of an entry as one text. -/
def joined (entry : List String) : String := String.intercalate "\n" entry

/-- What is shown of a program text: its outline, or why it is none. -/
def answer (source : String) : String :=
  match Program.ofText source with
  | .ok p => p.picture ++ "\n"
  | .error e => "[error] >>> " ++ e.message ++ "\n"

/-- What is shown of an entry, and whether tokens are displayed afterwards. -/
def respond (verbose : Bool) (entry : List String) : String × Bool :=
  let text := joined entry
  let source := strip text
  if source.isEmpty || source.startsWith "//" then ("", verbose)
  else if source.map Char.toLower = "verbose-mode" then
    ("[mode] >>> Verbose mode " ++ (if verbose then "OFF" else "ON") ++ "\n", !verbose)
  else
    let echo := if verbose then "[tokens] >>> " ++ echoOf (tokensOf text) ++ "\n" else ""
    (echo ++ answer source, verbose)

/-- The session after an entry, with what is shown of it. -/
def submit (verbose : Bool) (entry : List String) : String × Option Session :=
  let (shown, verbose) := respond verbose entry
  (shown, some (fresh verbose))

/-- A line leaves the session when no entry has begun. -/
def isFarewell (line : String) : Bool := strip line = "exit" || strip line = "quit"

/-- What is shown of an event, and the session after it, if it goes on. -/
def step (s : Session) : Event → String × Option Session
  | .line text =>
    if s.entry.isEmpty && isFarewell text then (farewell, none)
    else if !s.entry.isEmpty && (strip text).isEmpty then submit s.verbose s.entry
    else
      let entry := s.entry ++ [text]
      if needsMore (tokensOf (joined entry)) then ("", some ⟨s.verbose, entry⟩)
      else submit s.verbose entry
  | _ => ("\n" ++ farewell, none)

/-- A prompt and what is shown after it. -/
structure Exchange where
  prompt : String
  shown : String
deriving DecidableEq

/-- The exchanges of a session; the input ends after the last event. -/
def exchanges (s : Session) : List Event → List Exchange
  | [] => [⟨s.prompt, (s.step .endOfInput).1⟩]
  | e :: es =>
    match s.step e with
    | (shown, none) => [⟨s.prompt, shown⟩]
    | (shown, some s') => ⟨s.prompt, shown⟩ :: s'.exchanges es

end Session

end AelSyntax
