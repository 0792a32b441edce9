import AelSyntax.Proofs.Command.Delivery
import AelSyntax.Proofs.Token.LineEnds

/-! # Texts in files

A text that comes from a file has newlines only, whatever its lines end with there. This is not seen
in its tokens, and a rendering is made of these, so a task does the same with a text in a file as
with the text itself (`Task.work_eq_of_file`). -/

namespace AelSyntax

open AelSyntax.Text

/-- What was encoded is decoded. -/
theorem fromUTF8?_toUTF8 (text : String) : String.fromUTF8? text.toUTF8 = some text :=
  dif_pos text.isValidUTF8

/-- A text that ends its lines with two characters is rendered as with one. -/
theorem renderAs_withNewlines {text : String} (h : ReturnsEndLines text.toList)
    (format : Option String) : renderAs format (withNewlines text) = renderAs format text := by
  unfold renderAs
  cases format.bind Format.ofName? with
  | none => rfl
  | some form =>
    show (render (withNewlines text) form).mapError _ = (render text form).mapError _
    rw [render_congr (tokensOf_withNewlines h)]

namespace Task

theorem sourceText_of_file {t : Task} {fs : Files} {text : String} (hfile : t.IsOfFile)
    (hread : fs.read t.source = .ok text.toUTF8) :
    t.sourceText fs = .ok (withNewlines text) :=
  sourceText_of_takesText (.ofFile hfile hread (fromUTF8?_toUTF8 text))

/-- **A text in a file is as good as the text itself.** Let a program file hold a text in which each
carriage return stands right before a newline. For every form of rendering, every place it goes to,
and with a banner or without, the task with the file and the task with the text show the same and
leave the same files, or they fail in the same way. -/
theorem work_eq_of_file (name text : String) (format out : Option String) (pretty : Bool)
    (w : World) (hname : isProgramFile name = true) (hread : w.files.read name = .ok text.toUTF8)
    (hreturns : ReturnsEndLines text.toList) :
    (⟨name, false, format, out, pretty⟩ : Task).work w =
      (⟨text, true, format, out, pretty⟩ : Task).work w := by
  let inFile : Task := ⟨name, false, format, out, pretty⟩
  let itself : Task := ⟨text, true, format, out, pretty⟩
  have hfile : inFile.sourceText w.files = .ok (withNewlines text) :=
    sourceText_of_file ⟨rfl, hname⟩ hread
  have htext : itself.sourceText w.files = .ok text := rfl
  have hrender := renderAs_withNewlines hreturns format
  show inFile.work w = itself.work w
  cases h : renderAs format text with
  | error fault =>
    rw [h] at hrender
    rw [work_of_unrendered hfile hrender, work_of_unrendered htext h]
  | ok rendering =>
    rw [h] at hrender
    rw [work_of_rendered hfile hrender, work_of_rendered htext h]
    rfl

/-- A comment and a statement end with a carriage return and a newline, and so does the text, which
is refused at its end. -/
theorem work_eq_of_file_of_comment :
    ∃ fs : Files, fs.read "a.ael" = .ok "print 1 // one\r\nlet x =\r\n".toUTF8 ∧
      (⟨"a.ael", false, some "json", some "o.txt", true⟩ : Task).work ⟨"", fs⟩ =
        (⟨"print 1 // one\r\nlet x =\r\n", true, some "json", some "o.txt", true⟩ : Task).work
          ⟨"", fs⟩ := by
  let fs : Files := ⟨[(["a.ael"], "print 1 // one\r\nlet x =\r\n".toUTF8)], []⟩
  have hlocate : fs.locate "a.ael" = .ok ["a.ael"] := by decide +kernel
  have hread : fs.read "a.ael" = .ok "print 1 // one\r\nlet x =\r\n".toUTF8 := by
    rw [Files.read, hlocate]
    rfl
  exact ⟨fs, hread, work_eq_of_file _ _ _ _ _ _ (by decide) hread (by decide +kernel)⟩

end Task

end AelSyntax
