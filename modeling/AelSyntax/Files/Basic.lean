import AelSyntax.Files.Path
import AelSyntax.Text.Quoted

/-! # Files

Files are kept by their paths, each with its bytes. A file is opened by a name whose steps, but for
the last one, lead through directories that are there; the last step must not lead to a directory.
Reading asks for a file that is there, writing makes it if it is not. Two paths are taken for two
files, even where one comes from the directory that is worked in and the other from the root: what
is written by the one is not seen by the other.

* `Files.locate`: the path that a name opens, or why it opens none.
* `Files.read`: the bytes of a file.
* `Files.create`, `Files.put`: the files after one is opened for writing, and after it is written. -/

namespace AelSyntax

/-- The files with their bytes, and the directories besides those that are always there. -/
structure Files where
  entries : List (Path × ByteArray)
  directories : List Path

/-! ### Faults -/

/-- Why a name opens no file. -/
inductive OpenFault where
  | nullCharacter
  | tooLong
  | missing
  | notDirectory
  | isDirectory
deriving DecidableEq

/-- The message of a fault with a name. -/
def OpenFault.message (name : String) : OpenFault → String
  | nullCharacter => "embedded null byte"
  | tooLong => "[Errno 36] File name too long: " ++ Text.quoted name
  | missing => "[Errno 2] No such file or directory: " ++ Text.quoted name
  | notDirectory => "[Errno 20] Not a directory: " ++ Text.quoted name
  | isDirectory => "[Errno 21] Is a directory: " ++ Text.quoted name

namespace Files

/-- The greatest number of bytes in a step. -/
def stepLimit : Nat := 255

/-- The greatest number of bytes in a name. -/
def nameLimit : Nat := 4095

variable (fs : Files)

/-- No files, and no directories but those that are always there. -/
def empty : Files := ⟨[], []⟩

/-- The files with given names and bytes, in the directories that their names lead through. -/
def ofEntries (entries : List (String × ByteArray)) : Files :=
  ⟨entries.map fun f => (Path.ofName f.1, f.2),
    entries.flatMap fun f => (Path.passed f.1).dropLast⟩

/-- The files below the directory that is worked in. -/
def below : List (Path × ByteArray) := fs.entries.filter fun f => f.1.isBelow

/-! ### Finding a file -/

/-- A directory is at a path. The one that is worked in, those above it and the root are always
there. -/
def hasDirectory (p : Path) : Bool := p.all (fun s => s = ".." || s = "/") || p ∈ fs.directories

/-- The bytes of the file at a path. -/
def find? (p : Path) : Option ByteArray := fs.entries.lookup p

/-- The path one step further, unless the step is too long. -/
def follow (p : Path) (step : String) : Except OpenFault Path :=
  if stepLimit < step.utf8ByteSize then .error .tooLong else .ok (p.follow step)

/-- The directory one step further. -/
def enter (p : Path) (step : String) : Except OpenFault Path := do
  let q ← follow p step
  if fs.hasDirectory q then .ok q
  else if (fs.find? q).isSome then .error .notDirectory
  else .error .missing

/-- The path of a file behind a last step, which must not lead to a directory. -/
def lastStep (p : Path) (step : String) : Except OpenFault Path := do
  let q ← follow p step
  if fs.hasDirectory q then .error .isDirectory else .ok q

/-- The path of the file that is opened by a name. -/
def locate (name : String) : Except OpenFault Path :=
  if '\x00' ∈ name.toList then .error .nullCharacter
  else if nameLimit < name.utf8ByteSize then .error .tooLong
  else
    let steps := Path.stepsOf name
    match steps.getLast? with
    | none => .error (if name = "" then .missing else .isDirectory)
    | some last => do
      let p ← steps.dropLast.foldlM fs.enter (Path.start name)
      if Path.endsInSlash name then .error .isDirectory else fs.lastStep p last

/-! ### Reading and writing -/

/-- The bytes of the file with a name. -/
def read (name : String) : Except OpenFault ByteArray := do
  let p ← fs.locate name
  match fs.find? p with
  | some bytes => .ok bytes
  | none => .error .missing

/-- The files with the bytes of one of them replaced. -/
def put (p : Path) (bytes : ByteArray) : Files :=
  { fs with entries := (p, bytes) :: fs.entries.filter fun f => f.1 ≠ p }

theorem find?_put_self (p : Path) (bytes : ByteArray) :
    (fs.put p bytes).find? p = some bytes := by
  simp [find?, put]

theorem find?_put_of_ne {p q : Path} (bytes : ByteArray) (h : q ≠ p) :
    (fs.put p bytes).find? q = fs.find? q := by
  have others (es : List (Path × ByteArray)) :
      (es.filter fun f => f.1 ≠ p).lookup q = es.lookup q := by
    induction es with
    | nil => rfl
    | cons e es ih =>
      obtain ⟨r, b⟩ := e
      by_cases he : r = p
      · subst he
        rw [List.filter_cons_of_neg (by simp), ih, List.lookup_cons, beq_false_of_ne h]
      · rw [List.filter_cons_of_pos (by simpa using he), List.lookup_cons, List.lookup_cons, ih]
  rw [find?, put, List.lookup_cons, beq_false_of_ne h]
  exact others fs.entries

/-- The path that a name opens for writing, and the files with an empty one there. -/
def create (name : String) : Except OpenFault (Path × Files) := do
  let p ← fs.locate name
  return (p, fs.put p .empty)

end Files

end AelSyntax
