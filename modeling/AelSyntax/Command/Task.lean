import AelSyntax.Files.Basic
import AelSyntax.Rendering
import AelSyntax.Text.Newline

/-! # Rendering a file or a text

A task names a program text, itself or by the file it stands in, a form of rendering and where the
rendering goes. It is work on what has been shown and on the files, done step by step: a step that
fails takes nothing back, and a file that is opened for writing is empty until it is written.

* `Task.work`: the steps of a task.
* `Task.run`: what a task shows and the files after it, or why it fails. -/

namespace AelSyntax

/-- What is to be rendered, how, and where the rendering goes. A form without a name is one that was
asked for with nothing. -/
structure Task where
  source : String
  isText : Bool
  format : Option String
  out : Option String
  pretty : Bool

/-- Why a task fails. -/
inductive TaskFault where
  | wrongSuffix
  | notOpened (name : String) (reason : OpenFault)
  | undecodable
  | unknownFormat (name : Option String)
  | noProgram (fault : Fault)
deriving DecidableEq

/-- The message of a failure. -/
def TaskFault.message : TaskFault → String
  | wrongSuffix => "Only .ael files are supported."
  | notOpened name reason => reason.message name
  | undecodable => ""
  | unknownFormat (some name) => "Unknown output format: " ++ Text.quoted name
  | unknownFormat none => "Unknown output format: []"
  | noProgram e => e.message

/-- The rendering of a program text in the form of a name. -/
def renderAs (format : Option String) (text : String) : Except TaskFault String :=
  match format.bind Format.ofName? with
  | none => .error (.unknownFormat format)
  | some f => (render text f).mapError .noProgram

/-! ### Work on files -/

/-- What has been shown, and the files as they are. -/
structure World where
  shown : String
  files : Files

/-- Work that may fail; what was done before stays done. -/
abbrev Work (α : Type) := EStateM TaskFault World α

namespace Work

/-- What is found out from the files, if it can be. -/
def consult {α : Type} (f : Files → Except TaskFault α) : Work α := fun w =>
  match f w.files with
  | .ok a => .ok a w
  | .error fault => .error fault w

/-- A text is shown. -/
def say (text : String) : Work Unit := fun w => .ok () { w with shown := w.shown ++ text }

/-- A file is opened for writing, which empties it. -/
def openToWrite (name : String) : Work Path := fun w =>
  match w.files.create name with
  | .ok (p, files) => .ok p { w with files }
  | .error reason => .error (.notOpened name reason) w

/-- A text is written to an empty file. -/
def writeTo (p : Path) (text : String) : Work Unit := fun w =>
  .ok () { w with files := w.files.put p text.toUTF8 }

end Work

/-! ### Tasks -/

namespace Task

/-- The text of a file: UTF-8 with lines that end in any of the usual ways. -/
def fileText (fs : Files) (name : String) : Except TaskFault String :=
  match fs.read name with
  | .error reason => .error (.notOpened name reason)
  | .ok bytes =>
    match String.fromUTF8? bytes with
    | none => .error .undecodable
    | some text => .ok (Text.withNewlines text)

/-- A name is that of a program file. -/
def isProgramFile (name : String) : Bool := ".ael".toList.isSuffixOf name.toList

/-- The program text of a task. -/
def sourceText (t : Task) (fs : Files) : Except TaskFault String :=
  if t.isText then .ok t.source
  else if isProgramFile t.source then fileText fs t.source
  else .error .wrongSuffix

/-- The name of the form, as it stands in a banner. -/
def formatName (t : Task) : String := t.format.getD ""

/-- A line of the banner. -/
def rule : String := String.ofList (List.replicate 20 '=')

/-- What is shown of a rendering that is not written to a file. -/
def shown (t : Task) (text : String) : String :=
  if t.pretty then
    rule ++ "\nAel " ++ t.formatName ++ "\n" ++ rule ++ "\n" ++ text ++ "\n" ++ rule ++ "\n\n"
  else text ++ "\n"

/-- The file that a rendering is written to, unless it is to be shown. -/
def target? (t : Task) : Option String := t.out.filter fun name => name ≠ ""

/-- A rendering goes where it is to go. -/
def deliver (t : Task) (text : String) : Work Unit :=
  match t.target? with
  | none => Work.say (t.shown text)
  | some name => do
    let p ← Work.openToWrite name
    Work.writeTo p (text ++ "\n")
    if t.pretty then Work.say ("(wrote to " ++ name ++ ")\n")

/-- The steps of a task: the text is read and rendered, and the rendering is delivered. -/
def work (t : Task) : Work Unit := do
  let source ← Work.consult t.sourceText
  let text ← Work.consult fun _ => renderAs t.format source
  t.deliver text

/-- What a task shows and the files after it. -/
def run (fs : Files) (t : Task) : Except TaskFault (String × Files) :=
  match t.work ⟨"", fs⟩ with
  | .ok _ w => .ok (w.shown, w.files)
  | .error fault _ => .error fault

end Task

end AelSyntax
