import AelSyntax.Command.Run
import AelSyntax.Proofs.Grammar.Location
import Mathlib.Tactic.Common

/-! # What a task leaves behind

The text that a task takes is the one it names, or what a program file holds (`Task.TakesText`). A
task fails because there is no such text, because it cannot be rendered, or because the file for the
rendering cannot be opened (`Task.FailsWith`). All this is settled before the first step that shows
or writes anything, so a task that fails leaves the world as it was. A task that succeeds changes
one thing in it: it shows the rendering, or it writes the rendering to one file (`Task.Delivers`,
`Task.work_atomic`). -/

namespace AelSyntax

/-! ### Texts that are not rendered -/

theorem map_eq_error {ε α β : Type} {f : α → β} {x : Except ε α} {e : ε}
    (h : x.map f = .error e) : x = .error e := by
  cases x with
  | ok a => cases h
  | error e' => cases h; rfl

/-- A text that is not rendered is refused, and the refusal has a place. -/
theorem exists_refused_of_render {source : String} {form : Format} {fault : Fault}
    (h : render source form = .error fault) : ∃ reason p, fault = .refused reason p := by
  have hprogram : Program.ofText source = .error fault → ∃ reason p, fault = .refused reason p := by
    intro hsource
    obtain ⟨-, t, -, reason, -, -, -, -, hfault⟩ := Program.exists_refused hsource
    exact ⟨reason, t.place, hfault⟩
  cases form with
  | tree => exact hprogram (map_eq_error h)
  | json => exact hprogram (map_eq_error h)
  | tokens =>
    obtain ⟨-, t, -, -, -, -, hfault⟩ := cleanTokens_eq_error.mp (map_eq_error h)
    exact ⟨_, t.place, hfault⟩

theorem renderAs_eq_error {format : Option String} {source : String} {fault : TaskFault}
    (h : renderAs format source = .error fault) :
    format.bind Format.ofName? = none ∧ fault = .unknownFormat format ∨
      ∃ form reason p, format.bind Format.ofName? = some form ∧
        render source form = .error (.refused reason p) ∧
        fault = .noProgram (.refused reason p) := by
  rw [renderAs] at h
  split at h
  · next hform =>
    cases h
    exact .inl ⟨hform, rfl⟩
  · next form hform =>
    cases hrender : render source form with
    | ok text => rw [hrender] at h; cases h
    | error e =>
      rw [hrender] at h
      cases h
      obtain ⟨reason, p, rfl⟩ := exists_refused_of_render hrender
      exact .inr ⟨form, reason, p, hform, hrender, rfl⟩

namespace Task

/-! ### The text of a task -/

/-- A task names a program file, and the text is in it. -/
def IsOfFile (t : Task) : Prop := t.isText = false ∧ isProgramFile t.source = true

/-- The text that a task takes: the one that it names, or what the bytes of the program file that it
names are read as, with newlines only. -/
inductive TakesText (t : Task) (fs : Files) : String → Prop
  | itself (htext : t.isText = true) : TakesText t fs t.source
  | ofFile {bytes : ByteArray} {text : String} (hfile : t.IsOfFile)
    (hread : fs.read t.source = .ok bytes) (hbytes : String.fromUTF8? bytes = some text) :
    TakesText t fs (Text.withNewlines text)

theorem sourceText_of_takesText {t : Task} {fs : Files} {source : String}
    (h : t.TakesText fs source) : t.sourceText fs = .ok source := by
  rcases h with htext | ⟨hfile, hread, hbytes⟩
  · rw [sourceText, if_pos htext]
  · have htext : ¬ t.isText = true := by simp [hfile.1]
    rw [sourceText, if_neg htext, if_pos hfile.2, fileText, hread]
    simp only [hbytes]

/-! ### Why a task fails -/

/-- Why a task fails on some files. -/
inductive FailsWith (t : Task) (fs : Files) : TaskFault → Prop
  | wrongSuffix (htext : t.isText = false) (hname : isProgramFile t.source = false) :
    FailsWith t fs .wrongSuffix
  | notOpened {reason : OpenFault} (hfile : t.IsOfFile) (h : fs.read t.source = .error reason) :
    FailsWith t fs (.notOpened t.source reason)
  | undecodable {bytes : ByteArray} (hfile : t.IsOfFile) (h : fs.read t.source = .ok bytes)
    (hbytes : String.fromUTF8? bytes = none) : FailsWith t fs .undecodable
  | unknownFormat {source : String} (hsource : t.TakesText fs source)
    (hform : t.format.bind Format.ofName? = none) : FailsWith t fs (.unknownFormat t.format)
  | refused {source : String} {form : Format} {reason : Refusal} {p : Place}
    (hsource : t.TakesText fs source) (hform : t.format.bind Format.ofName? = some form)
    (h : render source form = .error (.refused reason p)) :
    FailsWith t fs (.noProgram (.refused reason p))
  | notCreated {source text name : String} {reason : OpenFault}
    (hsource : t.TakesText fs source) (htext : renderAs t.format source = .ok text)
    (hout : t.out = some name) (hname : name ≠ "") (h : fs.locate name = .error reason) :
    FailsWith t fs (.notOpened name reason)

variable {t : Task} {fs : Files} {fault : TaskFault}

/-- A task takes a text, or it fails because there is none. -/
theorem sourceText_cases (t : Task) (fs : Files) :
    (∃ source, t.sourceText fs = .ok source ∧ t.TakesText fs source) ∨
      ∃ fault, t.sourceText fs = .error fault ∧ t.FailsWith fs fault := by
  rw [sourceText]
  by_cases htext : t.isText = true
  · rw [if_pos htext]
    exact .inl ⟨_, rfl, .itself htext⟩
  rw [if_neg htext]
  rw [Bool.not_eq_true] at htext
  by_cases hname : isProgramFile t.source = true
  · rw [if_pos hname, fileText]
    cases hread : fs.read t.source with
    | error reason => exact .inr ⟨_, rfl, .notOpened ⟨htext, hname⟩ hread⟩
    | ok bytes =>
      dsimp only
      cases hbytes : String.fromUTF8? bytes with
      | none => exact .inr ⟨_, rfl, .undecodable ⟨htext, hname⟩ hread hbytes⟩
      | some text => exact .inl ⟨_, rfl, .ofFile ⟨htext, hname⟩ hread hbytes⟩
  · rw [if_neg hname]
    rw [Bool.not_eq_true] at hname
    exact .inr ⟨_, rfl, .wrongSuffix htext hname⟩

theorem failsWith_of_renderAs {source : String} (hsource : t.TakesText fs source)
    (h : renderAs t.format source = .error fault) : t.FailsWith fs fault := by
  rcases renderAs_eq_error h with ⟨hform, rfl⟩ | ⟨form, reason, p, hform, hrender, rfl⟩
  · exact .unknownFormat hsource hform
  · exact .refused hsource hform hrender

/-! ### Where a rendering goes -/

/-- A rendering is shown, by itself or inside a banner, or it is written to one file. -/
inductive Delivers (t : Task) (text : String) (w : World) : World → Prop
  | shown (hout : t.out = none ∨ t.out = some "") (hpretty : t.pretty = false) :
    Delivers t text w ⟨w.shown ++ (text ++ "\n"), w.files⟩
  | bannered (hout : t.out = none ∨ t.out = some "") (hpretty : t.pretty = true) :
    Delivers t text w
      ⟨w.shown ++ (rule ++ "\nAel " ++ t.formatName ++ "\n" ++ rule ++ "\n" ++ text ++ "\n" ++
        rule ++ "\n\n"), w.files⟩
  | written {name : String} {p : Path} {files : Files} (hout : t.out = some name)
    (hname : name ≠ "") (hlocate : w.files.locate name = .ok p)
    (hfile : files.find? p = some (text ++ "\n").toUTF8)
    (hothers : ∀ q, q ≠ p → files.find? q = w.files.find? q)
    (hdirectories : files.directories = w.files.directories) :
    Delivers t text w
      ⟨w.shown ++ (if t.pretty then "(wrote to " ++ name ++ ")\n" else ""), files⟩

theorem target?_eq_none : t.target? = none ↔ t.out = none ∨ t.out = some "" := by
  rw [target?, Option.filter_eq_none_iff]
  cases t.out <;> simp

theorem target?_eq_some {name : String} : t.target? = some name ↔ t.out = some name ∧ name ≠ "" := by
  rw [target?, Option.filter_eq_some_iff]
  simp

end Task

/-! ### The steps of a task -/

namespace Files

variable {fs : Files} {name : String}

theorem create_of_ok {p : Path} (h : fs.locate name = .ok p) :
    fs.create name = .ok (p, fs.put p .empty) := by
  rw [create, h]
  rfl

theorem create_of_error {reason : OpenFault} (h : fs.locate name = .error reason) :
    fs.create name = .error reason := by
  rw [create, h]
  rfl

end Files

namespace Task

variable {t : Task} {w : World} {source text name : String} {fault : TaskFault}

theorem work_of_unread (h : t.sourceText w.files = .error fault) :
    t.work w = .error fault w := by
  show EStateM.bind (Work.consult t.sourceText) _ w = _
  rw [EStateM.bind, Work.consult, h]

theorem work_of_unrendered (hsource : t.sourceText w.files = .ok source)
    (h : renderAs t.format source = .error fault) : t.work w = .error fault w := by
  show EStateM.bind (Work.consult t.sourceText) _ w = _
  rw [EStateM.bind, Work.consult, hsource]
  show EStateM.bind (Work.consult fun _ => renderAs t.format source) _ w = _
  rw [EStateM.bind, Work.consult, h]

theorem work_of_rendered (hsource : t.sourceText w.files = .ok source)
    (h : renderAs t.format source = .ok text) : t.work w = t.deliver text w := by
  show EStateM.bind (Work.consult t.sourceText) _ w = _
  rw [EStateM.bind, Work.consult, hsource]
  show EStateM.bind (Work.consult fun _ => renderAs t.format source) _ w = _
  rw [EStateM.bind, Work.consult, h]

theorem deliver_of_shown (h : t.target? = none) :
    t.deliver text w = .ok () ⟨w.shown ++ t.shown text, w.files⟩ := by
  rw [deliver, h]
  rfl

theorem deliver_of_unopened (h : t.target? = some name) {reason : OpenFault}
    (hlocate : w.files.locate name = .error reason) :
    t.deliver text w = .error (.notOpened name reason) w := by
  rw [deliver, h]
  show EStateM.bind (Work.openToWrite name) _ w = _
  rw [EStateM.bind, Work.openToWrite, Files.create_of_error hlocate]

theorem deliver_of_opened (h : t.target? = some name) {p : Path}
    (hlocate : w.files.locate name = .ok p) :
    t.deliver text w =
      .ok () ⟨w.shown ++ (if t.pretty then "(wrote to " ++ name ++ ")\n" else ""),
        (w.files.put p .empty).put p (text ++ "\n").toUTF8⟩ := by
  rw [deliver, h]
  show EStateM.bind (Work.openToWrite name) _ w = _
  rw [EStateM.bind, Work.openToWrite, Files.create_of_ok hlocate]
  cases t.pretty with
  | true => rfl
  | false =>
    show EStateM.Result.ok () (World.mk w.shown _) = .ok () (World.mk (w.shown ++ "") _)
    rw [String.append_empty]

/-- A rendering that is delivered goes to one place, and one that is not goes nowhere. -/
theorem deliver_cases (t : Task) (text : String) (w : World) :
    (∃ w', t.deliver text w = .ok () w' ∧ t.Delivers text w w') ∨
      ∃ name reason, t.deliver text w = .error (.notOpened name reason) w ∧ t.out = some name ∧
        name ≠ "" ∧ w.files.locate name = .error reason := by
  cases htarget : t.target? with
  | none =>
    refine .inl ⟨_, deliver_of_shown htarget, ?_⟩
    rw [target?_eq_none] at htarget
    cases hpretty : t.pretty with
    | true => rw [shown, if_pos hpretty]; exact .bannered htarget hpretty
    | false => rw [shown, if_neg (by simp [hpretty])]; exact .shown htarget hpretty
  | some name =>
    obtain ⟨hout, hname⟩ := target?_eq_some.mp htarget
    cases hlocate : w.files.locate name with
    | error reason =>
      exact .inr ⟨name, reason, deliver_of_unopened htarget hlocate, hout, hname, hlocate⟩
    | ok p =>
      refine .inl ⟨_, deliver_of_opened htarget hlocate,
        .written hout hname hlocate (Files.find?_put_self _ p _) (fun q hq => ?_) rfl⟩
      rw [Files.find?_put_of_ne _ _ hq, Files.find?_put_of_ne _ _ hq]

/-- A task succeeds and its rendering is delivered, or it fails and leaves the world as it was. -/
theorem work_cases (t : Task) (w : World) :
    (∃ source text w', t.work w = .ok () w' ∧ t.TakesText w.files source ∧
        renderAs t.format source = .ok text ∧ t.Delivers text w w') ∨
      ∃ fault, t.work w = .error fault w ∧ t.FailsWith w.files fault := by
  rcases sourceText_cases t w.files with ⟨source, hsource, htakes⟩ | ⟨fault, hsource, hfails⟩
  · cases htext : renderAs t.format source with
    | error fault =>
      exact .inr ⟨fault, work_of_unrendered hsource htext, failsWith_of_renderAs htakes htext⟩
    | ok text =>
      rw [work_of_rendered hsource htext]
      rcases deliver_cases t text w with ⟨w', hdeliver, h⟩ | ⟨name, reason, hdeliver, hout, hname, h⟩
      · exact .inl ⟨source, text, w', hdeliver, htakes, htext, h⟩
      · exact .inr ⟨_, hdeliver, .notCreated htakes htext hout hname h⟩
  · exact .inr ⟨fault, work_of_unread hsource, hfails⟩

theorem work_of_run {fs : Files} (h : t.run fs = .error fault) :
    t.work ⟨"", fs⟩ = .error fault ⟨"", fs⟩ ∧ t.FailsWith fs fault := by
  rw [run] at h
  rcases work_cases t ⟨"", fs⟩ with ⟨_, _, w', hwork, -⟩ | ⟨fault', hwork, hfails⟩
  · rw [hwork] at h
    cases h
  · rw [hwork] at h
    cases h
    exact ⟨hwork, hfails⟩

end Task

/-! ### The command with a source -/

namespace Command

/-- Arguments that name a source and ask for no session lead to a task. -/
theorem plan_of_source {args : List String} {a : Arguments} {source : String}
    (hargs : Arguments.read args = .ok a) (hsource : a.source = some source)
    (hsession : a.session = false) :
    plan args = .carryOut ⟨source, a.isText, a.format, a.out, a.pretty⟩ := by
  have hne : args.isEmpty = false := by
    cases args with
    | nil => cases hargs; cases hsource
    | cons _ _ => rfl
  rw [plan, if_neg (by simp [hne]), hargs]
  simp only [hsource, hsession]

end Command

namespace Task

/-- A task that fails leaves what was shown and the files as they were. A task that succeeds changes
one thing: the rendering of the text that it takes is shown, or it is written to the one file that
was asked for. The command tells of a text that is no program in one line, and shows and writes
nothing else. -/
theorem work_atomic (t : Task) (w : World) :
    (∀ fault w', t.work w = .error fault w' → w' = w ∧ t.FailsWith w.files fault) ∧
      (∀ w', t.work w = .ok () w' → ∃ source text, t.TakesText w.files source ∧
        renderAs t.format source = .ok text ∧ t.Delivers text w w') ∧
      ∀ (args : List String) (input : String) (a : Arguments) (source : String) (fault : Fault),
        Arguments.read args = .ok a → a.source = some source → a.session = false →
        t = ⟨source, a.isText, a.format, a.out, a.pretty⟩ →
        t.run w.files = .error (.noProgram fault) →
        Command.run args w.files input =
          ⟨.status 1, "", "[error] >>> " ++ fault.message ++ "\n", w.files⟩ := by
  refine ⟨fun fault w' h => ?_, fun w' h => ?_, ?_⟩
  · rcases work_cases t w with ⟨_, _, _, hwork, -⟩ | ⟨fault', hwork, hfails⟩
    · rw [hwork] at h; cases h
    · rw [hwork] at h; cases h; exact ⟨rfl, hfails⟩
  · rcases work_cases t w with ⟨source, text, w₁, hwork, hrest⟩ | ⟨fault', hwork, -⟩
    · rw [hwork] at h; cases h; exact ⟨source, text, hrest⟩
    · rw [hwork] at h; cases h
  · rintro args input a source fault hargs hsource hsession rfl hrun
    obtain ⟨hwork, hfails⟩ := work_of_run hrun
    rw [Command.run, Command.plan_of_source hargs hsource hsession, Command.Plan.run, hwork]
    cases hfails with
    | refused => rfl

/-- A text with a stray character is rendered to no file, and a file that is there keeps what it
holds. A text without one is rendered to that file. -/
theorem work_atomic_of_stray_character :
    ∃ fs : Files, (fs.find? ["o.txt"]).isSome = true ∧
      Command.run ["-s", "print $", "-o", "o.txt"] fs "" =
        ⟨.status 1, "", "[error] >>> Line 1, col 7: Unexpected character '$'\n", fs⟩ ∧
      (∃ fault w', (⟨"print $", true, some "tree", some "o.txt", false⟩ : Task).work ⟨"", fs⟩ =
        .error fault w' ∧ w' = ⟨"", fs⟩) ∧
      ∃ w', (⟨"print a", true, some "tokens", some "o.txt", true⟩ : Task).work ⟨"", fs⟩ = .ok () w' ∧
        ∃ text, (⟨"print a", true, some "tokens", some "o.txt", true⟩ : Task).Delivers text
          ⟨"", fs⟩ w' := by
  let fs : Files := ⟨[(["o.txt"], .empty)], []⟩
  let t : Task := ⟨"print $", true, some "tree", some "o.txt", false⟩
  let t' : Task := ⟨"print a", true, some "tokens", some "o.txt", true⟩
  have hstray : renderAs t.format t.source =
      .error (.noProgram (.refused (.unexpectedCharacter "$") ⟨1, 7⟩)) := by decide +kernel
  have hwork := work_of_unrendered (t := t) (w := ⟨"", fs⟩) rfl hstray
  have hrun : t.run fs = .error (.noProgram (.refused (.unexpectedCharacter "$") ⟨1, 7⟩)) := by
    rw [run, hwork]
  have hargs : Arguments.read ["-s", "print $", "-o", "o.txt"] =
      .ok ⟨some t.source, true, some "tree", some "o.txt", false, false, false⟩ := by
    decide +kernel
  have hclean : (cleanTokens t'.source).toBool = true := by decide +kernel
  have htokens : ∃ text, renderAs t'.format t'.source = .ok text := by
    show ∃ text, ((cleanTokens t'.source).map _).mapError _ = .ok text
    cases h : cleanTokens t'.source with
    | ok ts => exact ⟨_, rfl⟩
    | error fault => rw [h] at hclean; cases hclean
  have hlocate : fs.locate "o.txt" = .ok ["o.txt"] := by decide +kernel
  obtain ⟨text, htext⟩ := htokens
  obtain ⟨w', hw'⟩ : ∃ w', t'.work ⟨"", fs⟩ = .ok () w' :=
    ⟨_, (work_of_rendered rfl htext).trans (deliver_of_opened rfl hlocate)⟩
  obtain ⟨-, text, -, -, hdelivers⟩ := (work_atomic t' ⟨"", fs⟩).2.1 w' hw'
  exact ⟨fs, rfl, (work_atomic t ⟨"", fs⟩).2.2 _ "" _ _ _ hargs rfl rfl rfl hrun,
    ⟨_, _, hwork, ((work_atomic t ⟨"", fs⟩).1 _ _ hwork).1⟩, w', hw', text, hdelivers⟩

end Task

end AelSyntax
