/-! # Names and paths

A name of a file is a run of steps with slashes between them. The steps are taken from the directory
that is worked in or, if the name begins with a slash, from the root. The step `.` stays where it is
and `..` goes up, so that different names may lead to one file. A path is where a name leads.

The directory that is worked in has no place below the root here and no name in the directory above
it. So two names are seen to lead to one file only if both begin with a slash or neither does, and
neither goes up out of that directory and down into it again; else they have two paths, and the file
counts as two.

* `Path.ofName`: the path of a name.
* `Path.name`: the shortest name of a path. -/

namespace AelSyntax

/-- The steps that lead to a file or a directory: `/` to the root, `..` upwards, any other one into
the directory of that name. Only the first step is `/`, and `..` follows none but itself. -/
abbrev Path := List String

namespace Path

/-! ### Steps -/

/-- The steps of a name. -/
def stepsOf (name : String) : List String :=
  ((name.toList.splitOn '/').map String.ofList).filter (· ≠ "")

/-- Where the first step of a name is taken. -/
def start (name : String) : Path := if name.toList.head? = some '/' then ["/"] else []

/-- A name asks for a directory by a slash at its end. -/
def endsInSlash (name : String) : Bool := name.toList.getLast? = some '/'

/-- The directory above; the root is above itself. -/
def up (p : Path) : Path :=
  match p.getLast? with
  | none => [".."]
  | some ".." => p ++ [".."]
  | some "/" => p
  | some _ => p.dropLast

/-- The path one step further. -/
def follow (p : Path) (step : String) : Path :=
  if step = "." then p else if step = ".." then p.up else p ++ [step]

/-- The path leads into the directory that is worked in. -/
def isBelow (p : Path) : Bool := p.head? ≠ some ".." && p.head? ≠ some "/"

/-! ### Names -/

/-- The path of a name. -/
def ofName (name : String) : Path := (stepsOf name).foldl follow (start name)

/-- The paths that some steps lead through. -/
def passedFrom (p : Path) : List String → List Path
  | [] => []
  | s :: ss => p.follow s :: passedFrom (p.follow s) ss

/-- The paths that a name leads through; the last one is its own. -/
def passed (name : String) : List Path := passedFrom (start name) (stepsOf name)

/-- The shortest name of a path. -/
def name : Path → String
  | "/" :: ss => "/" ++ String.intercalate "/" ss
  | ss => String.intercalate "/" ss

end Path

end AelSyntax
