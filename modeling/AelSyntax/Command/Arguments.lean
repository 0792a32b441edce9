import AelSyntax.Command.Task
import AelSyntax.Command.Word

/-! # The arguments of the command

Words are read from left to right, so the first fault or the first request for help decides. Short
options may be put together, and the last of them may be followed by its value at once. The first
word that is no option is the source; whatever belongs to nothing is reported at the end.

There are two readings of what is joined to an option, and this is the older one. Behind the options
of a cluster a value stands as it is, with an equals sign in front of it if there is one: the form
in `-psf=json` is `=json`, and the file in `-spo=` is `=`. What is no option in a cluster, as the
`1` in `-s1`, is a value where none is wanted. The value `--` counts for nothing, also where it is
joined to its option, as in `--out=--`. The newer reading skips that equals sign, reports the rest
of such a cluster as belonging to nothing, and takes `--` as a value where it is joined.

* `Arguments.read`: what some arguments ask for. -/

namespace AelSyntax

/-- What the arguments ask for. A form without a name is one whose value was a divider. -/
structure Arguments where
  source : Option String
  isText : Bool
  format : Option String
  out : Option String
  pretty : Bool
  session : Bool
  verbose : Bool
deriving DecidableEq

/-- Why the arguments are not carried out. -/
inductive Stop where
  | help
  | usage (fault : UsageFault)
deriving DecidableEq

namespace Arguments

/-- What no arguments ask for. -/
def none : Arguments := ⟨.none, false, some "tree", .none, false, false, false⟩

/-- The arguments with one more option. -/
def set (a : Arguments) : Flag → Except Stop Arguments
  | .help => .error .help
  | .text => .ok { a with isText := true }
  | .pretty => .ok { a with pretty := true }
  | .session => .ok { a with session := true }
  | .verbose => .ok { a with verbose := true }
  | .format => .ok { a with format := .none }
  | .out => .ok { a with out := .none }

/-- The arguments with the value of an option. A divider as value counts for nothing. -/
def setValue (a : Arguments) (f : Flag) (value : String) : Except Stop Arguments :=
  if value = "--" then a.set f
  else
    match f with
    | .format =>
      if (Format.ofName? value).isSome then .ok { a with format := some value }
      else .error (.usage (.invalidChoice value))
    | .out => .ok { a with out := some value }
    | f => a.set f

end Arguments

/-- Short options put together: those without a value, the last one, and what is joined to it. -/
structure Cluster where
  before : List Flag
  last : Flag
  joined : Option (List Char)

namespace Cluster

/-- The options of a cluster, from an option and the characters behind it. -/
def ofChars (f : Flag) : List Char → Except UsageFault Cluster
  | [] => .ok ⟨[], f, none⟩
  | c :: cs =>
    if f.takesValue then .ok ⟨[], f, some (c :: cs)⟩
    else
      match Flag.ofLetter? c with
      | none => .error (.ignoredValue f (String.ofList (c :: cs)))
      | some g => (ofChars g cs).map fun k => ⟨f :: k.before, k.last, k.joined⟩

/-- The options of an argument. -/
def ofWord (f : Flag) (short : Bool) (joined : Option (List Char)) : Except UsageFault Cluster :=
  match joined with
  | none => .ok ⟨[], f, none⟩
  | some cs =>
    if f.takesValue then .ok ⟨[], f, some cs⟩
    else if short && !cs.isEmpty then ofChars f cs
    else .error (.ignoredValue f (String.ofList cs))

end Cluster

namespace Arguments

/-- The arguments with some options, and a last one with its value if it takes one. -/
def apply (a : Arguments) (k : Cluster) (value : Option String) : Except Stop Arguments := do
  let a ← k.before.foldlM set a
  match value with
  | some v => a.setValue k.last v
  | .none => a.set k.last

/-- Reads words from left to right. The source is taken once; what belongs to nothing is kept. -/
def readWords (a : Arguments) (sourceTaken : Bool) (extra : List String) :
    List Word → Except Stop (Arguments × List String)
  | [] => .ok (a, extra)
  | .option f short joined :: ws => do
    let k ← (Cluster.ofWord f short joined).mapError .usage
    match k.joined with
    | some cs => readWords (← a.apply k (some (String.ofList cs))) sourceTaken extra ws
    | .none =>
      if k.last.takesValue then
        match ws with
        | .plain v :: ws => readWords (← a.apply k (some v)) sourceTaken extra ws
        | _ => .error (.usage (.missingValue k.last))
      else readWords (← a.apply k .none) sourceTaken extra ws
  | w :: ws =>
    match w, sourceTaken, ws with
    | .plain v, false, .divider :: ws => readWords { a with source := some v } true extra ws
    | .plain v, false, ws => readWords { a with source := some v } true extra ws
    | .divider, false, .plain v :: ws => readWords { a with source := some v } true extra ws
    | .divider, false, ws => readWords a true extra ws
    | w, _, ws => readWords a sourceTaken (extra ++ w.leftover) ws

/-- What some arguments ask for. -/
def read (args : List String) : Except Stop Arguments := do
  let words ← (Word.classify args).mapError .usage
  let (a, extra) ← none.readWords false [] words
  if extra.isEmpty then .ok a else .error (.usage (.unrecognized extra))

end Arguments

end AelSyntax
