import AelSyntax.Proofs.Json.Grammar
import AelSyntax.Proofs.Number.Reading
import Mathlib.Tactic.Common

/-! # The grammar of JSON is unambiguous

A text of JSON stands for one term only (`IsText.unique`). The first character of a value says which
of the forms it has. A string ends at the first quotation mark that is not escaped, and a scalar
where a character follows that belongs to no scalar (`Follows`); what stands behind a value with the
blanks around it is a comma, a closing bracket or brace, or nothing (`Delimits`). Two readings may
even be of two grammars with different names, if the names are made of the characters of scalars. -/

namespace AelSyntax.Json

open AelSyntax.Text

/-! ### Characters of scalars -/

/-- A character that a scalar may hold. -/
def isScalarPart (c : Char) : Bool := c.isAlphanum || c = '+' || c = '-' || c = '.'

/-- Names that are made of the characters of scalars. -/
def Proper (names : List String) : Prop :=
  ∀ n ∈ names, n ≠ "" ∧ n.toList.all isScalarPart = true

instance : DecidablePred Proper := fun names =>
  inferInstanceAs (Decidable (∀ n ∈ names, n ≠ "" ∧ n.toList.all isScalarPart = true))

theorem proper_standardNames : Proper standardNames := by decide

theorem proper_extendedNames : Proper extendedNames := by decide

theorem isScalarPart_of_isDigit {c : Char} (h : c.isDigit = true) : isScalarPart c = true := by
  simp [isScalarPart, Char.isAlphanum, h]

theorem IsWhole.isDigits {cs : List Char} (h : IsWhole cs) : IsDigits cs := by
  cases h with
  | zero => exact ⟨by simp, by simp⟩
  | digits hd _ hds => exact ⟨by simp, List.forall_mem_cons.mpr ⟨hd, hds⟩⟩

theorem isScalarPart_of_mem_sign {sign : List Char} (h : sign ∈ [[], ['-'], ['+']]) :
    ∀ c ∈ sign, isScalarPart c = true := by
  have hall : ∀ sign ∈ [[], ['-'], ['+']], sign.all isScalarPart = true := by decide
  exact List.all_eq_true.mp (hall sign h)

theorem IsNumeral.isScalarPart {cs : List Char} (h : IsNumeral cs) :
    cs ≠ [] ∧ ∀ c ∈ cs, isScalarPart c = true := by
  have hdigits {ds : List Char} (hds : ∀ c ∈ ds, c.isDigit = true) :
      ∀ c ∈ ds, Json.isScalarPart c = true := fun c hc => isScalarPart_of_isDigit (hds c hc)
  obtain ⟨hsign, hwhole, hfraction, hexponent⟩ := h
  refine ⟨by simp [hwhole.isDigits.1], ?_⟩
  simp only [List.forall_mem_append]
  refine ⟨isScalarPart_of_mem_sign (List.mem_append_left [['+']] hsign),
    hdigits hwhole.isDigits.2, ?_, ?_⟩
  · cases hfraction with
    | none => simp
    | some hds => exact List.forall_mem_cons.mpr ⟨by decide, hdigits hds.2⟩
  · cases hexponent with
    | none => simp
    | some he hsign hds =>
      rw [List.forall_mem_cons, List.forall_mem_append]
      refine ⟨?_, isScalarPart_of_mem_sign hsign, hdigits hds.2⟩
      rcases he with rfl | rfl <;> decide

/-- What may stand behind a scalar: no character of one. -/
def Follows (t : List Char) : Prop := ∀ c ∈ t.head?, isScalarPart c = false

/-- What may stand behind a value with the blanks around it. -/
def Delimits (t : List Char) : Prop := ∀ c ∈ t.head?, c = ',' ∨ c = ']' ∨ c = '\x7d'

/-- A character that a value may begin with. -/
def beginsValue (c : Char) : Bool := isScalarPart c || c = '"' || c = '[' || c = '\x7b'

/-! ### Blanks -/

theorem isBlank_iff {c : Char} : isBlank c = true ↔ c = ' ' ∨ c = '\t' ∨ c = '\n' ∨ c = '\r' := by
  simp [isBlank, or_assoc]

theorem isScalarPart_eq_false_of_isBlank {c : Char} (h : isBlank c = true) :
    isScalarPart c = false := by
  rcases isBlank_iff.mp h with rfl | rfl | rfl | rfl <;> decide

theorem isBlank_eq_false_of_beginsValue {c : Char} (h : beginsValue c = true) :
    isBlank c = false := by
  by_contra hblank
  have hbegins : beginsValue c = false := by
    rcases isBlank_iff.mp (by simpa using hblank) with rfl | rfl | rfl | rfl <;> decide
  rw [h] at hbegins
  cases hbegins

/-- Blanks end where something else begins. -/
theorem Blanks.unique {s t t' : List Char} (h : Blanks s t) (h' : Blanks s t')
    (ht : ∀ c ∈ t.head?, isBlank c = false) (ht' : ∀ c ∈ t'.head?, isBlank c = false) : t = t' := by
  obtain ⟨blanks, hblanks, rfl⟩ := h
  obtain ⟨blanks', hblanks', heq⟩ := h'
  have hspan := span_append_of_head? hblanks ht
  rw [heq, span_append_of_head? hblanks' ht'] at hspan
  exact (congrArg Prod.snd hspan).symm

theorem Blanks.cons_unique {s t t' : List Char} {c c' : Char} (h : Blanks s (c :: t))
    (h' : Blanks s (c' :: t')) (hc : isBlank c = false) (hc' : isBlank c' = false) :
    c = c' ∧ t = t' := by
  have heq : c :: t = c' :: t' := h.unique h' (by simpa using hc) (by simpa using hc')
  exact List.cons.inj heq

theorem Blanks.follows {s t : List Char} (h : Blanks s t) (ht : Follows t) : Follows s := by
  obtain ⟨blanks, hblanks, rfl⟩ := h
  cases blanks with
  | nil => exact ht
  | cons b blanks =>
    intro c hc
    obtain rfl := Option.some.inj hc
    exact isScalarPart_eq_false_of_isBlank (hblanks b List.mem_cons_self)

theorem delimits_cons {c : Char} (t : List Char) (hc : c = ',' ∨ c = ']' ∨ c = '\x7d') :
    Delimits (c :: t) := by
  simpa [Delimits] using hc

theorem delimits_comma (t : List Char) : Delimits (',' :: t) := delimits_cons t (.inl rfl)

theorem delimits_bracket (t : List Char) : Delimits (']' :: t) := delimits_cons t (.inr (.inl rfl))

theorem delimits_brace (t : List Char) : Delimits ('\x7d' :: t) := delimits_cons t (.inr (.inr rfl))

theorem delimits_nil : Delimits [] := fun c hc => by cases hc

theorem Delimits.follows {t : List Char} (h : Delimits t) : Follows t := by
  intro c hc
  rcases h c hc with rfl | rfl | rfl <;> decide

theorem Delimits.isBlank {t : List Char} (h : Delimits t) : ∀ c ∈ t.head?, isBlank c = false := by
  intro c hc
  rcases h c hc with rfl | rfl | rfl <;> decide

/-! ### Strings -/

/-- **A string stands for one run of units** and ends in one place. -/
theorem Characters.unique {s t t' : List Char} {us us' : List Nat} (h : Characters s us t)
    (h' : Characters s us' t') : us = us' ∧ t = t' := by
  induction h generalizing us' with
  | closed t =>
    cases h' with
    | closed => exact ⟨rfl, rfl⟩
    | plain _ hquote => exact absurd rfl hquote
  | plain _ hquote hslash _ ih =>
    cases h' with
    | closed => exact absurd rfl hquote
    | plain _ _ _ h' =>
      obtain ⟨rfl, rfl⟩ := ih h'
      exact ⟨rfl, rfl⟩
    | escaped => exact absurd rfl hslash
    | unit => exact absurd rfl hslash
  | escaped he _ ih =>
    cases h' with
    | plain _ _ hslash => exact absurd rfl hslash
    | escaped he' h' =>
      obtain ⟨rfl, rfl⟩ := ih h'
      obtain rfl := Option.some.inj (he.symm.trans he')
      exact ⟨rfl, rfl⟩
    | unit => cases he
  | unit hlength _ hs _ ih =>
    cases h' with
    | plain _ _ hslash => exact absurd rfl hslash
    | escaped he => cases he
    | unit hlength' _ hs' h' =>
      obtain ⟨rfl, rfl⟩ := List.append_inj (hs.symm.trans hs') (hlength.trans hlength'.symm)
      obtain ⟨rfl, rfl⟩ := ih h'
      exact ⟨rfl, rfl⟩

/-! ### Scalars -/

section Scalars

variable {names : List String} (hnames : Proper names)
include hnames

theorem IsScalar.isScalarPart {cs : List Char} (h : IsScalar names cs) :
    cs ≠ [] ∧ ∀ c ∈ cs, isScalarPart c = true := by
  rcases h with h | h
  · exact h.isScalarPart
  · obtain ⟨hne, hparts⟩ := hnames _ h
    rw [String.toList_ofList] at hparts
    exact ⟨fun hnil => hne (by rw [hnil]), List.all_eq_true.mp hparts⟩

/-- The first character of a scalar. -/
theorem IsScalar.isScalarPart_head {cs s t : List Char} {c : Char} (h : IsScalar names cs)
    (hs : c :: s = cs ++ t) : Json.isScalarPart c = true := by
  obtain ⟨hne, hparts⟩ := h.isScalarPart hnames
  obtain ⟨d, ds, rfl⟩ := List.exists_cons_of_ne_nil hne
  obtain ⟨rfl, -⟩ := List.cons.inj hs
  exact hparts c List.mem_cons_self

/-- A scalar ends where no character of one follows. -/
theorem IsScalar.unique {names' : List String} (hnames' : Proper names') {cs cs' t t' : List Char}
    (h : IsScalar names cs) (h' : IsScalar names' cs') (ht : Follows t) (ht' : Follows t')
    (heq : cs ++ t = cs' ++ t') : cs = cs' ∧ t = t' := by
  have hspan := span_append_of_head? (h.isScalarPart hnames).2 ht
  rw [heq, span_append_of_head? (h'.isScalarPart hnames').2 ht'] at hspan
  exact ⟨(congrArg Prod.fst hspan).symm, (congrArg Prod.snd hspan).symm⟩

/-- The first character of a value. -/
theorem IsValue.exists_cons {s t : List Char} {x : Term} (h : IsValue names s x t) :
    ∃ c s', s = c :: s' ∧ beginsValue c = true := by
  cases h with
  | @scalar _ cs _ h hs =>
    obtain ⟨c, cs, rfl⟩ := List.exists_cons_of_ne_nil (h.isScalarPart hnames).1
    have hc : Json.isScalarPart c = true := (h.isScalarPart hnames).2 c List.mem_cons_self
    refine ⟨c, cs ++ t, hs, ?_⟩
    rw [beginsValue, hc]
    rfl
  | text => exact ⟨_, _, rfl, by decide⟩
  | emptyList => exact ⟨_, _, rfl, by decide⟩
  | list => exact ⟨_, _, rfl, by decide⟩
  | emptyRecord => exact ⟨_, _, rfl, by decide⟩
  | record => exact ⟨_, _, rfl, by decide⟩

theorem IsValue.isBlank_head {s t : List Char} {x : Term} (h : IsValue names s x t) :
    ∀ c ∈ s.head?, isBlank c = false := by
  obtain ⟨c, s', rfl, hc⟩ := h.exists_cons hnames
  simpa using isBlank_eq_false_of_beginsValue hc

/-- What closes an empty list begins no item. -/
theorem IsItems.not_blanks {s t t' : List Char} {xs : List Term} (h : IsItems names s xs t) :
    ¬ Blanks s (']' :: t') := by
  intro hclosed
  have hpadded : ∀ {x u}, ¬ IsPadded names s x u := by
    rintro x u ⟨hbefore, hvalue, -⟩
    obtain ⟨c, s', rfl, hc⟩ := hvalue.exists_cons hnames
    obtain ⟨rfl, -⟩ := hbefore.cons_unique hclosed (isBlank_eq_false_of_beginsValue hc) (by decide)
    cases hc
  cases h with
  | last h => exact hpadded h
  | more h _ => exact hpadded h

omit hnames in
/-- What closes an empty record begins no member. -/
theorem IsMembers.not_blanks {s t t' : List Char} {ms : List (List Nat × Term)}
    (h : IsMembers names s ms t) : ¬ Blanks s ('\x7d' :: t') := by
  intro hclosed
  have hmember : ∀ {m u}, ¬ IsMember names s m u := by
    rintro m u ⟨hbefore, -, -, -⟩
    cases (hbefore.cons_unique hclosed (by decide) (by decide)).1
  cases h with
  | last h => exact hmember h
  | more h _ => exact hmember h

end Scalars

/-! ### Values -/

section Values

variable {names names' : List String}

mutual

/-- **What stands at the beginning of a text is one value**, and it ends in one place. -/
theorem IsValue.unique (hnames : Proper names) (hnames' : Proper names') :
    ∀ {s t t' : List Char} {x x' : Term}, IsValue names s x t → IsValue names' s x' t' →
      Follows t → Follows t' → x = x' ∧ t = t'
  | _, _, _, _, _, .scalar h hs, h', ht, ht' => by
    cases h' with
    | scalar h' hs' =>
      obtain ⟨rfl, rfl⟩ := h.unique hnames hnames' h' ht ht' (hs.symm.trans hs')
      exact ⟨rfl, rfl⟩
    | _ => cases h.isScalarPart_head hnames hs
  | _, _, _, _, _, .text h, h', _, _ => by
    cases h' with
    | scalar h' hs' => cases h'.isScalarPart_head hnames' hs'
    | text h' =>
      obtain ⟨rfl, rfl⟩ := h.unique h'
      exact ⟨rfl, rfl⟩
  | _, _, _, _, _, .emptyList h, h', _, _ => by
    cases h' with
    | scalar h' hs' => cases h'.isScalarPart_head hnames' hs'
    | emptyList h' => exact ⟨rfl, (h.cons_unique h' (by decide) (by decide)).2⟩
    | list h' => exact absurd h (h'.not_blanks hnames')
  | _, _, _, _, _, .list h, h', _, _ => by
    cases h' with
    | scalar h' hs' => cases h'.isScalarPart_head hnames' hs'
    | emptyList h' => exact absurd h' (h.not_blanks hnames)
    | list h' =>
      obtain ⟨rfl, rfl⟩ := h.unique hnames hnames' h'
      exact ⟨rfl, rfl⟩
  | _, _, _, _, _, .emptyRecord h, h', _, _ => by
    cases h' with
    | scalar h' hs' => cases h'.isScalarPart_head hnames' hs'
    | emptyRecord h' => exact ⟨rfl, (h.cons_unique h' (by decide) (by decide)).2⟩
    | record h' => exact absurd h h'.not_blanks
  | _, _, _, _, _, .record h, h', _, _ => by
    cases h' with
    | scalar h' hs' => cases h'.isScalarPart_head hnames' hs'
    | emptyRecord h' => exact absurd h' h.not_blanks
    | record h' =>
      obtain ⟨rfl, rfl⟩ := h.unique hnames hnames' h'
      exact ⟨rfl, rfl⟩

/-- The blanks around a value are found as well. -/
theorem IsPadded.unique (hnames : Proper names) (hnames' : Proper names') :
    ∀ {s t t' : List Char} {x x' : Term}, IsPadded names s x t → IsPadded names' s x' t' →
      Delimits t → Delimits t' → x = x' ∧ t = t'
  | _, _, _, _, _, .mk hbefore h hafter, .mk hbefore' h' hafter', ht, ht' => by
    have hbegin := hbefore.unique hbefore' (h.isBlank_head hnames) (h'.isBlank_head hnames')
    subst hbegin
    obtain ⟨rfl, rfl⟩ := h.unique hnames hnames' h' (hafter.follows ht.follows)
      (hafter'.follows ht'.follows)
    exact ⟨rfl, hafter.unique hafter' ht.isBlank ht'.isBlank⟩

theorem IsItems.unique (hnames : Proper names) (hnames' : Proper names') :
    ∀ {s t t' : List Char} {xs xs' : List Term}, IsItems names s xs t → IsItems names' s xs' t' →
      xs = xs' ∧ t = t'
  | _, _, _, _, _, .last h, h' => by
    cases h' with
    | last h' =>
      obtain ⟨rfl, ht⟩ := h.unique hnames hnames' h' (delimits_bracket _) (delimits_bracket _)
      exact ⟨rfl, (List.cons.inj ht).2⟩
    | more h' _ =>
      obtain ⟨-, ht⟩ := h.unique hnames hnames' h' (delimits_bracket _) (delimits_comma _)
      cases (List.cons.inj ht).1
  | _, _, _, _, _, .more h hxs, h' => by
    cases h' with
    | last h' =>
      obtain ⟨-, ht⟩ := h.unique hnames hnames' h' (delimits_comma _) (delimits_bracket _)
      cases (List.cons.inj ht).1
    | more h' hxs' =>
      obtain ⟨rfl, ht⟩ := h.unique hnames hnames' h' (delimits_comma _) (delimits_comma _)
      obtain ⟨-, rfl⟩ := List.cons.inj ht
      obtain ⟨rfl, rfl⟩ := hxs.unique hnames hnames' hxs'
      exact ⟨rfl, rfl⟩

theorem IsMember.unique (hnames : Proper names) (hnames' : Proper names') :
    ∀ {s t t' : List Char} {m m' : List Nat × Term}, IsMember names s m t →
      IsMember names' s m' t' → Delimits t → Delimits t' → m = m' ∧ t = t'
  | _, _, _, _, _, .mk hbefore hkey hcolon h, .mk hbefore' hkey' hcolon' h', ht, ht' => by
    obtain ⟨-, rfl⟩ := hbefore.cons_unique hbefore' (by decide) (by decide)
    obtain ⟨rfl, rfl⟩ := hkey.unique hkey'
    obtain ⟨-, rfl⟩ := hcolon.cons_unique hcolon' (by decide) (by decide)
    obtain ⟨rfl, rfl⟩ := h.unique hnames hnames' h' ht ht'
    exact ⟨rfl, rfl⟩

theorem IsMembers.unique (hnames : Proper names) (hnames' : Proper names') :
    ∀ {s t t' : List Char} {ms ms' : List (List Nat × Term)}, IsMembers names s ms t →
      IsMembers names' s ms' t' → ms = ms' ∧ t = t'
  | _, _, _, _, _, .last h, h' => by
    cases h' with
    | last h' =>
      obtain ⟨rfl, ht⟩ := h.unique hnames hnames' h' (delimits_brace _) (delimits_brace _)
      exact ⟨rfl, (List.cons.inj ht).2⟩
    | more h' _ =>
      obtain ⟨-, ht⟩ := h.unique hnames hnames' h' (delimits_brace _) (delimits_comma _)
      cases (List.cons.inj ht).1
  | _, _, _, _, _, .more h hms, h' => by
    cases h' with
    | last h' =>
      obtain ⟨-, ht⟩ := h.unique hnames hnames' h' (delimits_comma _) (delimits_brace _)
      cases (List.cons.inj ht).1
    | more h' hms' =>
      obtain ⟨rfl, ht⟩ := h.unique hnames hnames' h' (delimits_comma _) (delimits_comma _)
      obtain ⟨-, rfl⟩ := List.cons.inj ht
      obtain ⟨rfl, rfl⟩ := hms.unique hnames hnames' hms'
      exact ⟨rfl, rfl⟩

end

/-- **A text of JSON stands for one term.** -/
theorem IsText.unique (hnames : Proper names) (hnames' : Proper names') {s : List Char}
    {x x' : Term} (h : IsText names s x) (h' : IsText names' s x') : x = x' :=
  (IsPadded.unique hnames hnames' h h' delimits_nil delimits_nil).1

end Values

end AelSyntax.Json
