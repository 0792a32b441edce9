import AelSyntax.Command.Run

/-! # The program

The outermost layer: it reads the arguments, the files they name and the lines that are typed, and
shows and writes what the command says. -/

namespace AelSyntax

/-- A session with whoever types the lines. -/
partial def converse (s : Session) : IO Unit := do
  let output ← IO.getStdout
  output.putStr s.prompt
  output.flush
  let line ← (← IO.getStdin).getLine
  let event := if line.isEmpty then Event.endOfInput
    else .line (if line.endsWith "\n" then (line.dropEnd 1).toString else line)
  let (shown, next) := s.step event
  output.putStr shown
  match next with
  | some s' => converse s'
  | none => output.flush

/-- The bytes of a file, if it can be read. -/
def bytesOf? (name : String) : IO (Option ByteArray) := do
  try return some (← IO.FS.readBinFile name) catch _ => return none

/-- A directory is there, seen from the one that is worked in. -/
def isDirectory (name : String) : IO Bool := do ((← IO.currentDir) / name).isDir

/-- The files and directories that the names of a task lead through, as far as they are there; the
file that is written is not looked into. -/
def filesFor (task : Task) : IO Files := do
  let read := if task.isText then [] else Path.passed task.source
  let written := (task.target?.map Path.passed).getD []
  let entries ← (read ++ written.dropLast).filterMapM fun p => do
    return (← bytesOf? p.name).map fun bytes => (p, bytes)
  return ⟨entries, ← (read ++ written).filterM fun p => isDirectory p.name⟩

/-- Shows and writes what a task has led to. -/
def finish (task : Task) (o : Command.Outcome) : IO UInt32 := do
  match task.target?, o.ending with
  | some name, .status 0 =>
    match o.files.read name with
    | .ok bytes => IO.FS.writeBinFile name bytes
    | .error _ => pure ()
  | _, _ => pure ()
  IO.print o.out
  IO.eprint o.err
  match o.ending with
  | .status n => return n.toUInt32
  | .failed fault =>
    IO.eprintln fault.message
    return 1

end AelSyntax

open AelSyntax in
/-- Carries out the arguments. -/
def main (args : List String) : IO UInt32 := do
  match Command.plan args with
  | .hold verbose =>
    IO.print Session.banner
    converse (.fresh verbose)
    return 0
  | .carryOut task => finish task (Command.run args (← filesFor task) "")
  | _ =>
    let o := Command.run args .empty ""
    IO.print o.out
    IO.eprint o.err
    match o.ending with
    | .status n => return n.toUInt32
    | .failed _ => return 1
