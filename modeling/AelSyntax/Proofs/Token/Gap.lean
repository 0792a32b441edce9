import AelSyntax.Token.Pieces
import Mathlib.Data.List.TakeWhile
import Mathlib.Tactic.Common

/-! # Gaps as runs of layout and comments

`IsGap gap rest` says what a gap in front of `rest` is without saying how it is found: layout
characters and comments in any order, where a comment is two slashes and all up to the next newline
or the end of the text. A text may begin with several gaps of different lengths; `IsLongestGap`
picks the longest.

* `isLongestGap_iff`: the longest gap is the one that `splitGap` cuts off.
* `splitGap_append_of_isGap`: cutting goes through every gap, longest or not. -/

namespace AelSyntax

open AelSyntax.Text

/-- A text is empty or begins with a newline. -/
def EndsLine (cs : List Char) : Prop := ∀ c ∈ cs.head?, c = '\n'

/-- A run of layout characters and comments in front of a text. -/
inductive IsGap : List Char → List Char → Prop
  | nil (rest : List Char) : IsGap [] rest
  | layout {c : Char} {gap rest : List Char} (hc : isLayout c = true) (h : IsGap gap rest) :
    IsGap (c :: gap) rest
  | comment {body gap rest : List Char} (hbody : '\n' ∉ body) (hend : EndsLine (gap ++ rest))
    (h : IsGap gap rest) : IsGap ('/' :: '/' :: (body ++ gap)) rest

/-- The longest gap at the beginning of a text, with what follows it. -/
def IsLongestGap (gap rest : List Char) : Prop :=
  IsGap gap rest ∧
    ∀ gap' rest', gap' ++ rest' = gap ++ rest → IsGap gap' rest' → gap'.length ≤ gap.length

/-- A text does not go on with a gap. -/
def EndsGap : List Char → Prop
  | [] => True
  | c :: cs => belongsToGap false c cs = false

theorem endsLine_nil : EndsLine [] := by intro c hc; cases hc

theorem endsLine_newline (cs : List Char) : EndsLine ('\n' :: cs) := by
  intro c hc
  rw [List.head?_cons, Option.mem_some_iff] at hc
  exact hc.symm

theorem isLayout_newline : isLayout '\n' = true := by decide

theorem beginsComment_iff {c : Char} {cs : List Char} :
    beginsComment (c :: cs) = true ↔ c = '/' ∧ cs.head? = some '/' := by
  constructor
  · unfold beginsComment
    split
    · next heq =>
      obtain ⟨rfl, rfl⟩ := List.cons.inj heq
      exact fun _ => ⟨rfl, rfl⟩
    · exact nofun
  · rintro ⟨rfl, hcs⟩
    obtain ⟨ds, rfl⟩ := List.head?_eq_some_iff.mp hcs
    rfl

theorem beginsComment_eq_false {c : Char} (cs : List Char) (hc : isLayout c = true) :
    beginsComment (c :: cs) = false := by
  rw [← Bool.not_eq_true, beginsComment_iff]
  rintro ⟨rfl, -⟩
  exact absurd hc (by decide)

/-- A gap begins with layout or with a comment. -/
theorem exists_slashes {c : Char} {cs : List Char} (hb : belongsToGap false c cs = true)
    (hc : ¬ isLayout c = true) : ∃ ds, c = '/' ∧ cs = '/' :: ds := by
  have hcomment : beginsComment (c :: cs) = true := by simpa [belongsToGap, hc] using hb
  obtain ⟨hslash, hslashes⟩ := beginsComment_iff.mp hcomment
  obtain ⟨ds, hds⟩ := List.head?_eq_some_iff.mp hslashes
  exact ⟨ds, hslash, hds⟩

/-! ### What is cut off is a gap -/

theorem splitGap_newline (inComment : Bool) (cs : List Char) :
    splitGap inComment ('\n' :: cs) = ('\n' :: (splitGap false cs).1, (splitGap false cs).2) := by
  have hb : belongsToGap inComment '\n' cs = true := by
    rw [belongsToGap, isLayout_newline, Bool.or_true]
  have hg : commentGoesOn inComment '\n' cs = false := by
    cases inComment
    · exact beginsComment_eq_false cs isLayout_newline
    · rfl
  rw [splitGap, if_pos hb, hg]

theorem splitGap_true_cons {c : Char} (cs : List Char) (hc : c ≠ '\n') :
    splitGap true (c :: cs) = (c :: (splitGap true cs).1, (splitGap true cs).2) := by
  have hg : commentGoesOn true c cs = true := by simp [commentGoesOn, hc]
  rw [splitGap, if_pos (by rfl), hg]

theorem splitGap_layout {c : Char} (cs : List Char) (hc : isLayout c = true) :
    splitGap false (c :: cs) = (c :: (splitGap false cs).1, (splitGap false cs).2) := by
  have hb : belongsToGap false c cs = true := by rw [belongsToGap, hc, Bool.or_true]
  have hg : commentGoesOn false c cs = false := beginsComment_eq_false cs hc
  rw [splitGap, if_pos hb, hg]

theorem splitGap_slashes (cs : List Char) :
    splitGap false ('/' :: '/' :: cs) =
      ('/' :: '/' :: (splitGap true cs).1, (splitGap true cs).2) := by
  rw [splitGap, if_pos (by rfl), show commentGoesOn false '/' ('/' :: cs) = true from rfl,
    splitGap_true_cons cs (by decide)]

theorem splitGap_of_endsGap : ∀ {cs : List Char}, EndsGap cs → splitGap false cs = ([], cs)
  | [], _ => rfl
  | c :: cs, h => by
    have h' : belongsToGap false c cs = false := h
    rw [splitGap, h']
    rfl

/-- Inside a comment, what is cut off is the rest of the comment and a gap. -/
theorem isGap_splitGap : ∀ cs : List Char,
    IsGap (splitGap false cs).1 (splitGap false cs).2 ∧
      ∃ body gap, (splitGap true cs).1 = body ++ gap ∧ '\n' ∉ body ∧
        EndsLine (gap ++ (splitGap true cs).2) ∧ IsGap gap (splitGap true cs).2
  | [] => ⟨.nil [], [], [], rfl, by simp, endsLine_nil, .nil []⟩
  | c :: cs => by
    obtain ⟨hgap, body, gap, hsplit, hbody, hend, hgap'⟩ := isGap_splitGap cs
    constructor
    · by_cases hb : belongsToGap false c cs = true
      swap
      · have he : EndsGap (c :: cs) := Bool.eq_false_iff.mpr hb
        rw [splitGap_of_endsGap he]
        exact .nil _
      by_cases hc : isLayout c = true
      · rw [splitGap_layout cs hc]; exact .layout hc hgap
      · obtain ⟨cs', rfl, rfl⟩ := exists_slashes hb hc
        rw [splitGap_true_cons cs' (by decide)] at hsplit hend hgap'
        rw [splitGap_slashes]
        -- the body that was found begins with the second slash, since no newline stands there
        match body, hsplit with
        | [], hsplit =>
          rw [List.nil_append] at hsplit
          rw [← hsplit] at hend
          exact absurd (hend '/' rfl) (by decide)
        | b :: body, hsplit =>
          obtain ⟨rfl, hsplit⟩ := List.cons.inj hsplit
          dsimp only at hsplit ⊢
          rw [hsplit]
          exact .comment (fun h => hbody (List.mem_cons_of_mem _ h)) hend hgap'
    · by_cases hc : c = '\n'
      · subst hc
        rw [splitGap_newline]
        exact ⟨[], _, rfl, by simp, endsLine_newline _, .layout isLayout_newline hgap⟩
      · rw [splitGap_true_cons cs hc]
        refine ⟨c :: body, gap, by rw [hsplit]; rfl, ?_, hend, hgap'⟩
        rw [List.mem_cons, not_or]
        exact ⟨fun h => hc h.symm, hbody⟩

/-! ### What is cut off is the longest gap -/

theorem splitGap_true_append {body cs : List Char} (hbody : '\n' ∉ body) (hend : EndsLine cs) :
    splitGap true (body ++ cs) = (body ++ (splitGap false cs).1, (splitGap false cs).2) := by
  induction body with
  | nil =>
    cases cs with
    | nil => rfl
    | cons c cs =>
      obtain rfl : c = '\n' := hend c rfl
      rw [List.nil_append, List.nil_append, splitGap_newline, splitGap_newline]
  | cons b body ih =>
    rw [List.mem_cons, not_or] at hbody
    rw [List.cons_append, splitGap_true_cons _ fun h => hbody.1 h.symm, ih hbody.2]
    rfl

/-- A gap that begins with a comment goes on behind the line of that comment. -/
theorem splitGap_comment (cs : List Char) :
    (splitGap false ('/' :: '/' :: cs)).1 = ('/' :: '/' :: cs.takeWhile (· ≠ '\n')) ++
      (splitGap false (cs.dropWhile (· ≠ '\n'))).1 := by
  have hbody : '\n' ∉ cs.takeWhile (· ≠ '\n') := fun hmem => by
    simpa using List.mem_takeWhile_imp hmem
  have hend : EndsLine (cs.dropWhile (· ≠ '\n')) := fun c hc => by
    have hnot := List.head?_dropWhile_not (· ≠ '\n') cs
    rw [Option.mem_def.mp hc] at hnot
    simpa using hnot
  have hsplit := splitGap_true_append hbody hend
  rw [List.takeWhile_append_dropWhile] at hsplit
  rw [splitGap_slashes, hsplit]
  rfl

/-- **Cutting goes through every gap.** -/
theorem splitGap_append_of_isGap {gap rest : List Char} (h : IsGap gap rest) :
    splitGap false (gap ++ rest) = (gap ++ (splitGap false rest).1, (splitGap false rest).2) := by
  induction h with
  | nil rest => rfl
  | layout hc _ ih => rw [List.cons_append, splitGap_layout _ hc, ih]; rfl
  | comment hbody hend _ ih =>
    rw [List.cons_append, List.cons_append, splitGap_slashes, List.append_assoc,
      splitGap_true_append hbody hend, ih]
    simp

/-- **The longest gap is the one that is cut off.** -/
theorem isLongestGap_iff {gap rest : List Char} :
    IsLongestGap gap rest ↔ splitGap false (gap ++ rest) = (gap, rest) := by
  constructor
  · rintro ⟨hgap, hmax⟩
    have hle := hmax _ _ (splitGap_append false (gap ++ rest)) (isGap_splitGap (gap ++ rest)).1
    rw [splitGap_append_of_isGap hgap] at hle ⊢
    rw [List.length_append] at hle
    have hnil : (splitGap false rest).1 = [] := List.eq_nil_of_length_eq_zero (by omega)
    have happ := splitGap_append false rest
    rw [hnil, List.nil_append] at happ
    rw [hnil, List.append_nil, happ]
  · intro h
    have hgap := (isGap_splitGap (gap ++ rest)).1
    rw [h] at hgap
    refine ⟨hgap, fun gap' rest' heq hgap' => ?_⟩
    have happ := splitGap_append_of_isGap hgap'
    rw [heq, h] at happ
    have hlen := congrArg (fun r => r.1.length) happ
    simp only [List.length_append] at hlen
    omega

theorem isLongestGap_of_endsGap {gap rest : List Char} (h : IsGap gap rest) (he : EndsGap rest) :
    IsLongestGap gap rest := by
  rw [isLongestGap_iff, splitGap_append_of_isGap h, splitGap_of_endsGap he, List.append_nil]

end AelSyntax
