import AelSyntax.Proofs.Grammar.Completeness
import AelSyntax.Proofs.Grammar.Legible
import AelSyntax.Proofs.Tree.Record
import AelSyntax.Rendering
import Mathlib.Tactic.Common

/-! # Programs in JSON

The JSON of a program text shows the tree with all its places and nothing else
(`render_json_eq_iff`). It is a text of the standard grammar as long as the literals of the program
are finite, and is then read as the record of the tree (`render_json_standard`). A literal above the
greatest finite number is read as infinity, for which the standard has no scalar: what is written
for it is a name that only some readers know (`render_json_not_standard`). -/

namespace AelSyntax

open Json

/-- **The JSON of a program text loses nothing.** Two programs that are read have the same JSON if
and only if they are the same but for their places and all their nodes have the same places. -/
theorem render_json_eq_iff (source source' : String) (p q : Program)
    (hp : Program.ofText source = .ok p) (hq : Program.ofText source' = .ok q) :
    render source .json = render source' .json ↔
      (Node.program p).sameTree (.program q) = true ∧
        (Node.program p).walk.map Node.place = (Node.program q).walk.map Node.place := by
  rw [← Program.eq_iff_sameTree (Program.legible_of_ofText hp) (Program.legible_of_ofText hq),
    render, render, hp, hq]
  constructor
  · intro h
    exact Program.record_inj (toText_inj (Except.ok.inj h))
  · rintro rfl
    rfl

/-- A zero at the end of a fraction and a comment are not seen in the JSON, but a blank in front of
a number is: it moves the number. -/
theorem render_json_eq_iff_of_half :
    ∃ p q r : Program, Program.ofText "print 𝐱 + 0.5" = .ok p ∧
      Program.ofText "print 𝐱 + 0.50 // half" = .ok q ∧ Program.ofText "print 𝐱 +  0.5" = .ok r ∧
      render "print 𝐱 + 0.5" .json = render "print 𝐱 + 0.50 // half" .json ∧
      render "print 𝐱 + 0.5" .json ≠ render "print 𝐱 +  0.5" .json := by
  let half : Binary64 := .signed false (.ofPlace (1022 * bandSize))
  let sum (column : ℕ) : Expr :=
    .binary .plus (.name ⟨"𝐱", ⟨1, 7⟩⟩) (.literal half ⟨1, column⟩) ⟨1, 7⟩
  let p : Program := ⟨[.print (sum 11) ⟨1, 1⟩], ⟨1, 1⟩⟩
  let r : Program := ⟨[.print (sum 12) ⟨1, 1⟩], ⟨1, 1⟩⟩
  have hp : Program.ofText "print 𝐱 + 0.5" = .ok p := by decide +kernel
  have hq : Program.ofText "print 𝐱 + 0.50 // half" = .ok p := by decide +kernel
  have hr : Program.ofText "print 𝐱 +  0.5" = .ok r := by decide +kernel
  refine ⟨p, p, r, hp, hq, hr, ?_, fun h => ?_⟩
  · exact (render_json_eq_iff _ _ p p hp hq).mpr (by decide +kernel)
  have hplaces := ((render_json_eq_iff _ _ p r hp hr).mp h).2
  revert hplaces
  decide +kernel

/-- The scalars of the JSON of a program are those of the standard if and only if its literals are
finite. -/
theorem Program.isScalar_standardNames_iff (p : Program) :
    (∀ cs ∈ p.record.term.scalars, IsScalar standardNames cs) ↔
      ∀ v q, Node.expr (.literal v q) ∈ (Node.program p).walk → v.IsFinite := by
  simp only [isScalar_record_iff, isScalar_writtenReal_iff]

/-- **The JSON of a program text is JSON**, if and only if the literals of the program are finite;
it is then read as the record of the program, in which no key stands twice. -/
theorem render_json_standard (source : String) (p : Program) (hp : Program.ofText source = .ok p) :
    ∃ text, render source .json = .ok text ∧
      ((∃ x, IsText standardNames text.toList x) ↔
        ∀ v q, Node.expr (.literal v q) ∈ (Node.program p).walk → v.IsFinite) ∧
      p.record.KeysDiffer ∧
      ∀ x, IsText standardNames text.toList x → x.value? = some p.record := by
  have hrender : render source .json = .ok p.record.toText := by rw [render, hp]; rfl
  have hread : ∀ x, IsText standardNames p.record.toText.toList x → x.value? = some p.record :=
    fun x hx => value?_of_isText proper_standardNames hx
  refine ⟨p.record.toText, hrender, ?_, p.keysDiffer_record, hread⟩
  rw [exists_isText_iff proper_standardNames, p.isScalar_standardNames_iff]

/-- A letter with two units is written as two escapes and read again. -/
theorem render_json_standard_of_half : ∃ p text, Program.ofText "print 𝐱 + 0.5" = .ok p ∧
    render "print 𝐱 + 0.5" .json = .ok text ∧
    ∃ x, IsText standardNames text.toList x ∧ x.value? = some p.record := by
  let half : Binary64 := .signed false (.ofPlace (1022 * bandSize))
  let p : Program :=
    ⟨[.print (.binary .plus (.name ⟨"𝐱", ⟨1, 7⟩⟩) (.literal half ⟨1, 11⟩) ⟨1, 7⟩) ⟨1, 1⟩], ⟨1, 1⟩⟩
  have hp : Program.ofText "print 𝐱 + 0.5" = .ok p := by decide +kernel
  have hfinite : ∀ v q, Node.expr (.literal v q) ∈ (Node.program p).walk → v.IsFinite := by
    intro v q hmem
    have hv : v = half ∧ q = ⟨1, 11⟩ := by
      simpa [p, Node.walk, Node.ofStatement, Statement.expressions, Expr.walk] using hmem
    have hhalf : (Magnitude.ofPlace (1022 * bandSize)).isInfinite = false := by decide +kernel
    rw [hv.1]
    exact hhalf
  obtain ⟨text, hrender, hstandard, -, hread⟩ := render_json_standard _ p hp
  obtain ⟨x, hx⟩ := hstandard.mpr hfinite
  exact ⟨p, text, hp, hrender, x, hx, hread x hx⟩

/-! ### A literal that is not finite -/

/-- The numeral of the least number of 310 digits, which is above all finite ones. -/
def largeNumeral : List Char := '1' :: List.replicate 309 '0'

/-- A program that prints it. -/
def largeSource : String := "print " ++ String.ofList largeNumeral

theorem isDigits_largeNumeral : IsDigits largeNumeral :=
  ⟨List.cons_ne_nil _ _, List.forall_mem_cons.mpr ⟨by decide, Numeral.isDigit_of_mem_zeros⟩⟩

theorem read_largeNumeral :
    Numeral.read (String.ofList largeNumeral) = some (.signed false .infinity) := by
  have hvalue : Numeral.digitsValue largeNumeral = 10 ^ 309 := by decide +kernel
  have hnearest : Decimal.nearest ⟨10 ^ 309, 0⟩ = .infinity := by decide +kernel
  rw [Numeral.read_digits isDigits_largeNumeral, hvalue, hnearest]

theorem ofText_largeSource : Program.ofText largeSource =
    .ok ⟨[.print (.literal (.signed false .infinity) ⟨1, 7⟩) ⟨1, 1⟩], ⟨1, 1⟩⟩ := by
  have hchars : largeSource.toList = ['p', 'r', 'i', 'n', 't', ' '] ++ largeNumeral := by
    rw [largeSource, String.toList_append, String.toList_ofList (l := largeNumeral)]
    rfl
  have hcut : cut (['p', 'r', 'i', 'n', 't', ' '] ++ largeNumeral) =
      ([⟨[], ⟨.printWord, "print".toList⟩⟩, ⟨[' '], ⟨.number, largeNumeral⟩⟩], []) := by
    decide +kernel
  let n : Number := ⟨String.ofList largeNumeral, .signed false .infinity,
    by rw [String.toList_ofList]; exact .whole isDigits_largeNumeral, read_largeNumeral⟩
  let d : Derivation :=
    ⟨.print ⟨1, 1⟩ (.plain (.chain (.bare (.chain (.alone (.number n ⟨1, 7⟩)) .done)) .done)), []⟩
  obtain ⟨q, htokens⟩ : ∃ q, tokensOf largeSource = d.yield ++ [.finish q] := by
    rw [tokensOf, hchars, tokensFrom, hcut]
    exact ⟨_, rfl⟩
  have hwithin : ∀ n ∈ [1], n ≤ nestingLimit := by decide
  rw [Program.ofText, htokens]
  exact d.accepted hwithin rfl

/-- **The JSON of a literal above all finite numbers is not JSON.** -/
theorem render_json_not_standard : ∃ text, render largeSource .json = .ok text ∧
    ∀ x, ¬ IsText standardNames text.toList x := by
  let p : Program := ⟨[.print (.literal (.signed false .infinity) ⟨1, 7⟩) ⟨1, 1⟩], ⟨1, 1⟩⟩
  have hp : Program.ofText largeSource = .ok p := ofText_largeSource
  have hrender : render largeSource .json = .ok p.record.toText := by rw [render, hp]; rfl
  refine ⟨p.record.toText, hrender, fun x hx => ?_⟩
  have hscalars := (exists_isText_iff proper_standardNames).mp ⟨x, hx⟩
  have hmem : Node.expr (.literal (.signed false .infinity) ⟨1, 7⟩) ∈ (Node.program p).walk := by
    simp [p, Node.walk, Node.ofStatement, Statement.expressions, Expr.walk]
  have hinfinite : Magnitude.infinity.isInfinite = true := by decide +kernel
  have hfinite : Magnitude.infinity.isInfinite = false :=
    p.isScalar_standardNames_iff.mp hscalars _ _ hmem
  rw [hinfinite] at hfinite
  cases hfinite

end AelSyntax
