import AelSyntax.Proofs.Json.Numerals
import AelSyntax.Proofs.Json.Strings
import AelSyntax.Proofs.Json.Unambiguity
import Mathlib.Tactic.Common

/-! # Written values

What is written for a value stands for a term that is a matter of the value alone (`Json.term`), and
the value is read from the term again (`value?_term`). The text is one of the grammar with some
names if and only if the scalars of the term are of that grammar (`exists_isText_iff`); those of the
extended grammar always are. As the grammar is unambiguous, no two values are written alike
(`toText_inj`). -/

namespace AelSyntax.Json

open AelSyntax.Text

variable {names : List String}

/-! ### Terms of values -/

mutual

/-- The term that a value is written as. -/
def term : Json → Term
  | integer n => .scalar (toString n).toList
  | real x => .scalar (writtenReal x)
  | text s => .text (s.toList.flatMap utf16)
  | list items => .list (itemTerms items)
  | record members => .record (memberTerms members)

/-- The terms that the items of a list are written as. -/
def itemTerms : List Json → List Term
  | [] => []
  | j :: js => j.term :: itemTerms js

/-- The terms that the members of a record are written as. -/
def memberTerms : List (String × Json) → List (List ℕ × Term)
  | [] => []
  | (key, j) :: ms => (key.toList.flatMap utf16, j.term) :: memberTerms ms

end

theorem memberTerms_append (ms ms' : List (String × Json)) :
    memberTerms (ms ++ ms') = memberTerms ms ++ memberTerms ms' := by
  induction ms with
  | nil => rfl
  | cons m ms ih => rw [List.cons_append, memberTerms, memberTerms, ih, List.cons_append]

/-! ### Scalars -/

mutual

/-- The scalars in a term. -/
def Term.scalars : Term → List (List Char)
  | .scalar cs => [cs]
  | .text _ => []
  | .list xs => itemScalars xs
  | .record ms => memberScalars ms

/-- The scalars in items. -/
def itemScalars : List Term → List (List Char)
  | [] => []
  | x :: xs => x.scalars ++ itemScalars xs

/-- The scalars in members. -/
def memberScalars : List (List ℕ × Term) → List (List Char)
  | [] => []
  | (_, x) :: ms => x.scalars ++ memberScalars ms

end

theorem memberScalars_append (ms ms' : List (List ℕ × Term)) :
    memberScalars (ms ++ ms') = memberScalars ms ++ memberScalars ms' := by
  induction ms with
  | nil => rfl
  | cons m ms ih => rw [List.cons_append, memberScalars, memberScalars, ih, List.append_assoc]

mutual

/-- The scalars of a value are those of the grammar. -/
theorem IsValue.isScalar : ∀ {s t : List Char} {x : Term}, IsValue names s x t →
    ∀ cs ∈ x.scalars, IsScalar names cs
  | _, _, _, .scalar h _ => List.forall_mem_singleton.mpr h
  | _, _, _, .text _ => nofun
  | _, _, _, .emptyList _ => nofun
  | _, _, _, .list h => h.isScalar
  | _, _, _, .emptyRecord _ => nofun
  | _, _, _, .record h => h.isScalar

theorem IsPadded.isScalar : ∀ {s t : List Char} {x : Term}, IsPadded names s x t →
    ∀ cs ∈ x.scalars, IsScalar names cs
  | _, _, _, .mk _ h _ => h.isScalar

theorem IsItems.isScalar : ∀ {s t : List Char} {xs : List Term}, IsItems names s xs t →
    ∀ cs ∈ itemScalars xs, IsScalar names cs
  | _, _, _, .last h => List.forall_mem_append.mpr ⟨h.isScalar, nofun⟩
  | _, _, _, .more h hxs => List.forall_mem_append.mpr ⟨h.isScalar, hxs.isScalar⟩

theorem IsMember.isScalar : ∀ {s t : List Char} {m : List ℕ × Term}, IsMember names s m t →
    ∀ cs ∈ m.2.scalars, IsScalar names cs
  | _, _, _, .mk _ _ _ h => h.isScalar

theorem IsMembers.isScalar : ∀ {s t : List Char} {ms : List (List ℕ × Term)},
    IsMembers names s ms t → ∀ cs ∈ memberScalars ms, IsScalar names cs
  | _, _, _, .last h => List.forall_mem_append.mpr ⟨h.isScalar, nofun⟩
  | _, _, _, .more h hms => List.forall_mem_append.mpr ⟨h.isScalar, hms.isScalar⟩

end

mutual

/-- All that is written for numbers is of the extended grammar. -/
theorem isScalar_of_mem_term : ∀ j : Json, ∀ cs ∈ j.term.scalars, IsScalar extendedNames cs
  | integer n => List.forall_mem_singleton.mpr (isScalar_toString extendedNames n)
  | real x => List.forall_mem_singleton.mpr (isScalar_writtenReal_extended x)
  | text _ => nofun
  | list items => isScalar_of_mem_itemTerms items
  | record members => isScalar_of_mem_memberTerms members

theorem isScalar_of_mem_itemTerms : ∀ js : List Json,
    ∀ cs ∈ itemScalars (itemTerms js), IsScalar extendedNames cs
  | [] => nofun
  | j :: js =>
    List.forall_mem_append.mpr ⟨isScalar_of_mem_term j, isScalar_of_mem_itemTerms js⟩

theorem isScalar_of_mem_memberTerms : ∀ ms : List (String × Json),
    ∀ cs ∈ memberScalars (memberTerms ms), IsScalar extendedNames cs
  | [] => nofun
  | (_, j) :: ms =>
    List.forall_mem_append.mpr ⟨isScalar_of_mem_term j, isScalar_of_mem_memberTerms ms⟩

end

/-! ### Reading terms -/

mutual

/-- The value that a term is read as. Values are no truth values and never missing, so the names of
the standard are read as none. -/
def Term.value? : Term → Option Json
  | .scalar cs => number? cs
  | .text us => (ofUtf16? us).map fun cs => .text (String.ofList cs)
  | .list xs => (itemValues? xs).map .list
  | .record ms => (memberValues? ms).map .record

/-- The values of items. -/
def itemValues? : List Term → Option (List Json)
  | [] => some []
  | x :: xs => do
    let j ← x.value?
    let js ← itemValues? xs
    some (j :: js)

/-- The keys and values of members. -/
def memberValues? : List (List ℕ × Term) → Option (List (String × Json))
  | [] => some []
  | (key, x) :: ms => do
    let cs ← ofUtf16? key
    let j ← x.value?
    let js ← memberValues? ms
    some ((String.ofList cs, j) :: js)

end

mutual

/-- **A value is read from the term it is written as.** -/
theorem value?_term : ∀ j : Json, j.term.value? = some j
  | integer n => number?_toString n
  | real x => number?_writtenReal x
  | text s => by rw [term, Term.value?, ofUtf16?_flatMap, Option.map_some, String.ofList_toList]
  | list items => by rw [term, Term.value?, itemValues?_itemTerms items, Option.map_some]
  | record members => by rw [term, Term.value?, memberValues?_memberTerms members, Option.map_some]

theorem itemValues?_itemTerms : ∀ js : List Json, itemValues? (itemTerms js) = some js
  | [] => rfl
  | j :: js => by
    rw [itemTerms, itemValues?, value?_term j, itemValues?_itemTerms js]
    rfl

theorem memberValues?_memberTerms : ∀ ms : List (String × Json),
    memberValues? (memberTerms ms) = some ms
  | [] => rfl
  | (key, j) :: ms => by
    rw [memberTerms, memberValues?, ofUtf16?_flatMap, value?_term j, memberValues?_memberTerms ms]
    exact congrArg (fun s => some ((s, j) :: ms)) String.ofList_toList

end

/-! ### Keys -/

mutual

/-- No record in a value has a key twice, so it does not matter which of its members are found
first. -/
def KeysDiffer : Json → Prop
  | integer _ => True
  | real _ => True
  | text _ => True
  | list items => ItemKeysDiffer items
  | record members => (members.map Prod.fst).Nodup ∧ MemberKeysDiffer members

/-- No record in an item has a key twice. -/
def ItemKeysDiffer : List Json → Prop
  | [] => True
  | j :: js => j.KeysDiffer ∧ ItemKeysDiffer js

/-- No record in a member has a key twice. -/
def MemberKeysDiffer : List (String × Json) → Prop
  | [] => True
  | (_, j) :: ms => j.KeysDiffer ∧ MemberKeysDiffer ms

end

theorem itemKeysDiffer_iff {js : List Json} : ItemKeysDiffer js ↔ ∀ j ∈ js, j.KeysDiffer := by
  induction js with
  | nil => simp [ItemKeysDiffer]
  | cons j js ih => rw [ItemKeysDiffer, List.forall_mem_cons, ih]

/-! ### Written values are texts of JSON -/

theorem Blanks.refl (s : List Char) : Blanks s s := ⟨[], by simp, rfl⟩

theorem blanks_newLine (depth : ℕ) (s : List Char) : Blanks (newLine depth ++ s) s := by
  refine ⟨newLine depth, ?_, rfl⟩
  rw [newLine, List.forall_mem_cons]
  refine ⟨by decide, fun c hc => ?_⟩
  rw [List.eq_of_mem_replicate hc]
  rfl

/-- The parts between brackets: a new line deeper, the parts with commas between them, and a new
line before the closing bracket. -/
theorem bracketed_cons (opening closing : Char) (depth : ℕ) (part : List Char)
    (parts : List (List Char)) (t : List Char) :
    bracketed opening closing depth (part :: parts) ++ t =
      opening :: (newLine (depth + 1) ++
        (List.intercalate (',' :: newLine (depth + 1)) (part :: parts) ++
          (newLine depth ++ closing :: t))) := by
  simp [bracketed]

/-- A key and a value of the grammar on a line of their own. -/
theorem isMember_of_isValue (key : String) {j : Json} {depth : ℕ} {s t : List Char}
    (h : IsValue names (j.written depth ++ s) j.term s) (hafter : Blanks s t) :
    IsMember names (newLine depth ++ (writtenText key ++ ':' :: ' ' :: j.written depth ++ s))
      (key.toList.flatMap utf16, j.term) t := by
  have hspace : Blanks (' ' :: (j.written depth ++ s)) (j.written depth ++ s) :=
    ⟨[' '], List.forall_mem_singleton.mpr rfl, rfl⟩
  rw [List.append_assoc, writtenText_append]
  exact .mk (blanks_newLine _ _) (characters_text _ _) (.refl _) (.mk hspace h hafter)

mutual

/-- **What is written for a value is a value of the grammar**, if its numbers are scalars. -/
theorem isValue_written : ∀ (j : Json) (depth : ℕ) (t : List Char),
    (∀ cs ∈ j.term.scalars, IsScalar names cs) →
      IsValue names (j.written depth ++ t) j.term t
  | integer n, _, _, _ => .scalar (isScalar_toString names n) rfl
  | real x, _, _, h => .scalar (h (writtenReal x) List.mem_cons_self) rfl
  | text s, depth, t, _ => by
    rw [written, writtenText_append]
    exact .text (characters_text s.toList t)
  | list [], _, t, _ => .emptyList (.refl _)
  | list (j :: js), depth, t, h => by
    rw [written, writtenItems, bracketed_cons, ← writtenItems]
    exact .list (isItems_written (j :: js) depth t (List.cons_ne_nil j js) h)
  | record [], _, t, _ => .emptyRecord (.refl _)
  | record (m :: ms), depth, t, h => by
    rw [written, writtenMembers, bracketed_cons, ← writtenMembers]
    exact .record (isMembers_written (m :: ms) depth t (List.cons_ne_nil m ms) h)

theorem isItems_written : ∀ (js : List Json) (depth : ℕ) (t : List Char), js ≠ [] →
    (∀ cs ∈ itemScalars (itemTerms js), IsScalar names cs) →
      IsItems names (newLine (depth + 1) ++
        (List.intercalate (',' :: newLine (depth + 1)) (writtenItems (depth + 1) js) ++
          (newLine depth ++ ']' :: t))) (itemTerms js) t
  | [], _, _, hne, _ => absurd rfl hne
  | [j], depth, t, _, h => by
    rw [itemTerms, itemScalars, List.forall_mem_append] at h
    rw [writtenItems, writtenItems, List.intercalate_singleton]
    exact .last (.mk (blanks_newLine _ _) (isValue_written j _ _ h.1) (blanks_newLine _ _))
  | j :: j' :: js, depth, t, _, h => by
    rw [itemTerms, itemScalars, List.forall_mem_append] at h
    have hmore := isItems_written (j' :: js) depth t (List.cons_ne_nil j' js) h.2
    rw [writtenItems, writtenItems, List.intercalate_cons_cons, ← writtenItems, List.append_assoc,
      List.append_assoc, List.cons_append]
    exact .more (.mk (blanks_newLine _ _) (isValue_written j _ _ h.1) (.refl _)) hmore

theorem isMembers_written : ∀ (ms : List (String × Json)) (depth : ℕ) (t : List Char), ms ≠ [] →
    (∀ cs ∈ memberScalars (memberTerms ms), IsScalar names cs) →
      IsMembers names (newLine (depth + 1) ++
        (List.intercalate (',' :: newLine (depth + 1)) (writtenMembers (depth + 1) ms) ++
          (newLine depth ++ '\x7d' :: t))) (memberTerms ms) t
  | [], _, _, hne, _ => absurd rfl hne
  | [(key, j)], depth, t, _, h => by
    rw [memberTerms, memberScalars, List.forall_mem_append] at h
    rw [writtenMembers, writtenMembers, List.intercalate_singleton]
    exact .last (isMember_of_isValue key (isValue_written j _ _ h.1) (blanks_newLine _ _))
  | (key, j) :: m :: ms, depth, t, _, h => by
    rw [memberTerms, memberScalars, List.forall_mem_append] at h
    have hmore := isMembers_written (m :: ms) depth t (List.cons_ne_nil m ms) h.2
    rw [writtenMembers, writtenMembers, List.intercalate_cons_cons, ← writtenMembers,
      List.append_assoc, List.append_assoc, List.cons_append]
    exact .more (isMember_of_isValue key (isValue_written j _ _ h.1) (.refl _)) hmore

end

/-! ### Texts -/

theorem isText_toText {j : Json} (h : ∀ cs ∈ j.term.scalars, IsScalar names cs) :
    IsText names j.toText.toList j.term := by
  have hvalue := isValue_written j 0 [] h
  rw [List.append_nil] at hvalue
  rw [toText, String.toList_ofList]
  exact .mk (.refl _) hvalue (.refl _)

theorem isText_extendedNames (j : Json) : IsText extendedNames j.toText.toList j.term :=
  isText_toText (isScalar_of_mem_term j)

/-- **A written value is of the grammar with some names** if and only if its scalars are. -/
theorem exists_isText_iff {j : Json} (hnames : Proper names) :
    (∃ x, IsText names j.toText.toList x) ↔ ∀ cs ∈ j.term.scalars, IsScalar names cs := by
  constructor
  · rintro ⟨x, hx⟩
    obtain rfl := hx.unique hnames proper_extendedNames (isText_extendedNames j)
    exact hx.isScalar
  · exact fun h => ⟨j.term, isText_toText h⟩

/-- **A written value is read as the value**, whatever the grammar is. -/
theorem value?_of_isText {j : Json} {x : Term} (hnames : Proper names)
    (h : IsText names j.toText.toList x) : x.value? = some j := by
  rw [h.unique hnames proper_extendedNames (isText_extendedNames j), value?_term]

/-- **No two values are written alike.** -/
theorem toText_inj {j j' : Json} (h : j.toText = j'.toText) : j = j' := by
  have hread := value?_of_isText (j := j') proper_extendedNames (h ▸ isText_extendedNames j)
  rw [value?_term] at hread
  exact Option.some.inj hread

end AelSyntax.Json
