import AelSyntax.Proofs.Token.Joining
import Mathlib.Tactic.Common

/-! # Texts line by line

What stands in one line of a text has no influence on how another one is read. The tokens of a text
are therefore those of its lines, each line read by itself and moved down to where it stands, and
the end of the text (`tokensOf_linewise`). -/

namespace AelSyntax

open AelSyntax.Text

/-- The lines of a text. -/
def linesOf (source : String) : List String := (source.toList.splitOn '\n').map String.ofList

/-- The tokens of a line without its end, moved down behind a number of other lines. -/
def tokensOfLine (n : Nat) (line : String) : List Token :=
  (tokensOf line).dropLast.map (Token.moved (Place.down n))

/-! ### Places -/

theorem Place.down_add (m n : Nat) (p : Place) : (p.down m).down n = p.down (m + n) := by
  simp only [down, Place.mk.injEq, and_true]
  omega

/-- Behind characters that are no newlines, a newline leads to the next line. -/
theorem Place.after_afterAll_newline {cs : List Char} (h : '\n' ∉ cs) (p : Place) :
    (p.afterAll cs).after '\n' = ⟨p.line + 1, 1⟩ := by
  induction cs generalizing p with
  | nil => rfl
  | cons c cs ih =>
    rw [List.mem_cons, not_or] at h
    rw [afterAll_cons, ih h.2, after, if_neg fun hc => h.1 hc.symm]

/-! ### Lines -/

theorem newline_not_mem_of_mem_splitOn {cs : List Char} :
    ∀ line ∈ cs.splitOn '\n', '\n' ∉ line := by
  induction cs with
  | nil => simp
  | cons c cs ih =>
    obtain ⟨line, lines, hlines⟩ := List.exists_cons_of_ne_nil (List.splitOn_ne_nil '\n' cs)
    rw [List.splitOn_cons_eq_if_modifyHead]
    by_cases hc : c = '\n'
    · subst hc
      simpa using ih
    · rw [hlines, List.forall_mem_cons] at ih
      have hbeq : (c == '\n') = false := beq_eq_false_iff_ne.mpr hc
      rw [hbeq, if_neg (by simp), hlines, List.modifyHead_cons, List.forall_mem_cons,
        List.mem_cons, not_or]
      exact ⟨⟨fun h => hc h.symm, ih.1⟩, ih.2⟩

/-- Lines below each other are read one by one. -/
theorem tokensFrom_intercalate : ∀ {lines : List (List Char)} (n : Nat), lines ≠ [] →
    (∀ line ∈ lines, '\n' ∉ line) →
      tokensFrom (Place.start.down n) (['\n'].intercalate lines) =
        (lines.mapIdx fun i line =>
          (tokensFrom (Place.start.down (n + i)) line).dropLast).flatten ++
            [.finish ((Place.start.down n).afterAll (['\n'].intercalate lines))]
  | [], _, hne, _ => absurd rfl hne
  | [line], n, _, _ => by
    obtain ⟨ts, hts, -⟩ := tokensFrom_eq_append_finish (Place.start.down n) line
    rw [List.intercalate_singleton, List.mapIdx_singleton, List.flatten_singleton, Nat.add_zero,
      hts, List.dropLast_concat]
  | line :: line' :: lines, n, _, h => by
    rw [List.forall_mem_cons] at h
    have ih := tokensFrom_intercalate (n + 1) (List.cons_ne_nil line' lines) h.2
    have hnext : ((Place.start.down n).afterAll line).after '\n' = Place.start.down (n + 1) := by
      rw [Place.after_afterAll_newline h.1, ← Place.down_add]
      rfl
    have hindex : ∀ i, n + 1 + i = n + (i + 1) := fun i => by omega
    rw [List.intercalate_cons_cons, List.append_assoc, List.singleton_append, tokensFrom_join,
      hnext, ih, Place.afterAll_append, Place.afterAll_cons, hnext]
    conv_rhs => rw [List.mapIdx_cons, List.flatten_cons, List.append_assoc]
    simp only [hindex, Nat.add_zero]

theorem tokensFrom_down (n : Nat) (cs : List Char) :
    tokensFrom (Place.start.down n) cs =
      (tokensFrom .start cs).map (Token.moved (Place.down n)) :=
  tokensFrom_moved (fun p c _ => (Place.after_down n p c).symm) (by decide) cs

/-- **The tokens of a text are those of its lines.** With a newline between two texts, the tokens
are those of the first without its end, and then those of the second, as many lines further down as
there are newlines before it. So the tokens of any text are those of its lines, each moved down
behind the lines before it, and the end of the text. -/
theorem tokensOf_linewise :
    (∀ a b : String, ∃ ts p, tokensOf a = ts ++ [.finish p] ∧ (∀ t ∈ ts, t.kind ≠ .finish) ∧
      tokensOf (a ++ "\n" ++ b) = ts ++ (tokensOf b).map (Token.moved (Place.below a))) ∧
    ∀ source : String, tokensOf source =
      ((linesOf source).mapIdx tokensOfLine).flatten ++
        [.finish (.ofOffset source.toList source.toList.length)] := by
  refine ⟨fun a b => ?_, fun source => ?_⟩
  · obtain ⟨ts, hts, hne⟩ := tokensFrom_eq_append_finish .start a.toList
    refine ⟨ts, _, hts, hne, ?_⟩
    rw [tokensOf_join, show tokensOf a = _ from hts, List.dropLast_concat]
  · have hlines := tokensFrom_intercalate 0 (List.splitOn_ne_nil '\n' source.toList)
      newline_not_mem_of_mem_splitOn
    have hstart : Place.start.down 0 = .start := rfl
    simp only [List.intercalate_splitOn, tokensFrom_down, hstart, Nat.zero_add,
      ← List.map_dropLast, Place.afterAll_start] at hlines
    rw [linesOf, List.mapIdx_eq_zipIdx_map, List.zipIdx_map, List.map_map]
    rw [List.mapIdx_eq_zipIdx_map] at hlines
    simpa [tokensOf, tokensOfLine, Function.comp_def] using hlines

end AelSyntax
