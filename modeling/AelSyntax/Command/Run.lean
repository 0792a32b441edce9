import AelSyntax.Command.Arguments
import AelSyntax.Session

/-! # The command

The command renders a source, or holds a session if there is none or if one is asked for. It ends
with a status: zero, one for a text that is no program, two for arguments that cannot be read. Any
other failure of a task is left to the caller.

* `Command.run`: what the command shows, on given files and a given input, and how it ends. -/

namespace AelSyntax

namespace Command

/-! ### Texts -/

/-- The summary of the arguments. -/
def usage : String :=
  "usage: ael [-h] [-s] [-f \x7btree,json,tokens\x7d] [-o OUTFILE] [-p] [--repl]\n" ++
  "           [--verbose]\n" ++
  "           [source]\n"

/-- The summary of the arguments and what each of them means. -/
def helpText : String :=
  usage ++
  "\n" ++
  "positional arguments:\n" ++
  "  source                Filename or raw source (with -s)\n" ++
  "\n" ++
  "options:\n" ++
  "  -h, --help            show this help message and exit\n" ++
  "  -s, --string          Interpret source as literal string\n" ++
  "  -f \x7btree,json,tokens\x7d, --format \x7btree,json,tokens\x7d\n" ++
  "                        Output rendering (default: tree)\n" ++
  "  -o OUTFILE, --out OUTFILE\n" ++
  "                        Output to file\n" ++
  "  -p, --pretty          Show output with banners\n" ++
  "  --repl                Launch interactive REPL instead of parsing a source\n" ++
  "  --verbose             Verbose REPL mode (if --repl)\n"

/-! ### Runs -/

/-- How the command ends. -/
inductive Ending where
  | status (code : Nat)
  | failed (fault : TaskFault)
deriving DecidableEq

/-- What the command shows and leaves behind. -/
structure Outcome where
  ending : Ending
  out : String
  err : String
  files : Files

/-- What the arguments lead to. -/
inductive Plan where
  | hold (verbose : Bool)
  | carryOut (task : Task)
  | showHelp
  | refuse (fault : UsageFault)

/-- The plan for some arguments. Without arguments there is a session that displays no tokens. -/
def plan (args : List String) : Plan :=
  if args.isEmpty then .hold false
  else
    match Arguments.read args with
    | .error .help => .showHelp
    | .error (.usage fault) => .refuse fault
    | .ok a =>
      match a.session, a.source with
      | false, some source => .carryOut ⟨source, a.isText, a.format, a.out, a.pretty⟩
      | _, _ => .hold a.verbose

/-- The lines of an input; the last one need not end with a newline. -/
def inputLines (input : String) : List String :=
  let lines := (input.toList.splitOn '\n').map String.ofList
  if lines.getLast? = some "" then lines.dropLast else lines

/-- What is shown of a whole session. -/
def transcript (verbose : Bool) (input : String) : String :=
  let exchanges := (Session.fresh verbose).exchanges ((inputLines input).map .line)
  Session.banner ++ String.join (exchanges.map fun x => x.prompt ++ x.shown)

/-- How a plan is carried out. -/
def Plan.run (fs : Files) (input : String) : Plan → Outcome
  | .hold verbose => ⟨.status 0, transcript verbose input, "", fs⟩
  | .showHelp => ⟨.status 0, helpText, "", fs⟩
  | .refuse fault => ⟨.status 2, "", usage ++ "ael: error: " ++ fault.message ++ "\n", fs⟩
  | .carryOut task =>
    match task.work ⟨"", fs⟩ with
    | .ok _ w => ⟨.status 0, w.shown, "", w.files⟩
    | .error (.noProgram (.refused reason p)) w =>
      ⟨.status 1, w.shown, "[error] >>> " ++ (Fault.refused reason p).message ++ "\n", w.files⟩
    | .error fault w => ⟨.failed fault, w.shown, "", w.files⟩

/-- What the command shows and leaves behind. -/
def run (args : List String) (fs : Files) (input : String) : Outcome := (plan args).run fs input

end Command

end AelSyntax
