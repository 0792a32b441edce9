import AelSyntax.Proofs.Token.Progress
import AelSyntax.Proofs.Token.Standing
import Mathlib.Tactic.Common

/-! # Looking and stepping

A reader needs two things alone to find a token: to look at the next character and the one behind
it, and to step over the next character. `Reader.Finds` says how the token is found in this way:
loops that step on as long as a condition holds (`Reader.ReadsWhile`) go over the gap, character by
character and comment by comment, and then over the lexeme, whose form is chosen by what can be
seen. Each of them has one outcome at most (`Reader.Finds.unique`).

* `Reader.finds_iff`: the token found so is the next token, for every reader.
* `Reader.lexes_iff`: the tokens found so, one after the other up to the end, are all tokens. -/

namespace AelSyntax

open AelSyntax.Text

namespace Reader

/-! ### What can be seen -/

/-- A character of a class can be seen. -/
def Sees (p : Char → Bool) (r : Reader) : Prop := ∃ c, r.peek 0 = some c ∧ p c = true

/-- No character can be seen that is not of a class. Before its text a reader sees none at all. -/
def SeesOnly (p : Char → Bool) (r : Reader) : Prop := ∀ c, r.peek 0 = some c → p c = true

/-- Two slashes can be seen. -/
def SeesSlashes (r : Reader) : Prop := r.peek 0 = some '/' ∧ r.peek 1 = some '/'

/-- A point can be seen, and a digit behind it. -/
def SeesFraction (r : Reader) : Prop :=
  r.peek 0 = some '.' ∧ ∃ c, r.peek 1 = some c ∧ c.isDigit = true

/-- The line goes on. -/
def InLine (r : Reader) : Prop := r.atEnd = false ∧ r.peek 0 ≠ some '\n'

/-- A gap goes on. -/
def InGap (r : Reader) : Prop := r.atEnd = false ∧ (r.Sees isLayout ∨ r.SeesSlashes)

/-- The operator or parenthesis that can be seen, the longer one if there are two. -/
def operatorSeen? (r : Reader) : Option Lexeme :=
  match r.peek 0, r.peek 1 with
  | none, _ => none
  | some c, none => (Lexeme.operatorKind? [c]).map fun k => ⟨k, [c]⟩
  | some c, some d =>
    match Lexeme.operatorKind? [c, d] with
    | some k => some ⟨k, [c, d]⟩
    | none => (Lexeme.operatorKind? [c]).map fun k => ⟨k, [c]⟩

/-! ### Stepping on -/

/-- Characters are read as long as a condition holds, and no longer. -/
inductive ReadsWhile (goesOn : Reader → Prop) : Reader → List Char → Reader → Prop
  | stop {r : Reader} (h : ¬ goesOn r) : ReadsWhile goesOn r [] r
  | step {r r' r'' : Reader} {c : Char} {cs : List Char} (h : goesOn r)
    (hnext : r.next = .ok (c, r')) (hrest : ReadsWhile goesOn r' cs r'') :
    ReadsWhile goesOn r (c :: cs) r''

/-- A gap is passed: each layout character by a step, each comment up to the end of its line. -/
inductive SkipsGap : Reader → Reader → Prop
  | stop {r : Reader} (h : ¬ r.InGap) : SkipsGap r r
  | layout {r r' r'' : Reader} {c : Char} (h : r.InGap) (hlayout : r.Sees isLayout)
    (hnext : r.next = .ok (c, r')) (hrest : SkipsGap r' r'') : SkipsGap r r''
  | comment {r r' r'' : Reader} {cs : List Char} (h : r.InGap) (hlayout : ¬ r.Sees isLayout)
    (hline : ReadsWhile InLine r cs r') (hrest : SkipsGap r' r'') : SkipsGap r r''

/-- The fraction of a number is read, if there is one. -/
inductive ReadsFraction : Reader → List Char → Reader → Prop
  | none {r : Reader} (h : ¬ r.SeesFraction) : ReadsFraction r [] r
  | some {r r' r'' : Reader} {c : Char} {cs : List Char} (h : r.SeesFraction)
    (hnext : r.next = .ok (c, r')) (hdigits : ReadsWhile (Sees Char.isDigit) r' cs r'') :
    ReadsFraction r (c :: cs) r''

/-- A lexeme is read: a word, a number, an operator, or a character that begins none of these. -/
inductive ReadsLexeme : Reader → Lexeme → Reader → Prop
  | word {r r' : Reader} {cs : List Char} (hletter : r.Sees isLetter)
    (hword : ReadsWhile (Sees isWordPart) r cs r') : ReadsLexeme r ⟨Lexeme.wordKind cs, cs⟩ r'
  | number {r r' r'' : Reader} {cs ds : List Char} (hletter : ¬ r.Sees isLetter)
    (hdigit : r.SeesOnly Char.isDigit) (hdigits : ReadsWhile (Sees Char.isDigit) r cs r')
    (hfraction : ReadsFraction r' ds r'') : ReadsLexeme r ⟨.number, cs ++ ds⟩ r''
  | operator {r r' : Reader} {l : Lexeme} (hletter : ¬ r.Sees isLetter)
    (hdigit : ¬ r.SeesOnly Char.isDigit) (hseen : r.operatorSeen? = some l)
    (hreads : r.Reads l.chars r') : ReadsLexeme r l r'
  | stray {r r' : Reader} {c : Char} (hletter : ¬ r.Sees isLetter)
    (hdigit : ¬ r.SeesOnly Char.isDigit) (hseen : r.operatorSeen? = none)
    (hnext : r.next = .ok (c, r')) : ReadsLexeme r ⟨.unknown, [c]⟩ r'

/-- A token is found: the end of the text, or a lexeme with the place where it begins. -/
inductive Finds : Reader → Token → Reader → Prop
  | finish {r s : Reader} (hgap : r.SkipsGap s) (hend : s.atEnd = true) :
    Finds r (.finish s.place) s
  | lexeme {r s r' : Reader} {l : Lexeme} (hgap : r.SkipsGap s) (hend : s.atEnd = false)
    (hlexeme : s.ReadsLexeme l r') : Finds r ⟨l.kind, String.ofList l.chars, s.place⟩ r'

/-- Tokens are found one after the other, up to the end of the text. -/
inductive Lexes : Reader → List Token → Reader → Prop
  | last {r r' : Reader} {t : Token} (h : r.Finds t r') (hkind : t.kind = .finish) :
    Lexes r [t] r'
  | step {r r' r'' : Reader} {t : Token} {ts : List Token} (h : r.Finds t r')
    (hkind : t.kind ≠ .finish) (hrest : Lexes r' ts r'') : Lexes r (t :: ts) r''

/-! ### One outcome -/

theorem next_unique {r r₁ r₂ : Reader} {c d : Char} (h₁ : r.next = .ok (c, r₁))
    (h₂ : r.next = .ok (d, r₂)) : c = d ∧ r₁ = r₂ :=
  Prod.mk.inj (Except.ok.inj (h₁.symm.trans h₂))

theorem ReadsWhile.unique {goesOn : Reader → Prop} {r r₁ r₂ : Reader} {cs ds : List Char}
    (h₁ : ReadsWhile goesOn r cs r₁) (h₂ : ReadsWhile goesOn r ds r₂) : cs = ds ∧ r₁ = r₂ := by
  induction h₁ generalizing ds r₂ with
  | stop h =>
    cases h₂ with
    | stop _ => exact ⟨rfl, rfl⟩
    | step h' _ _ => exact absurd h' h
  | step h hnext _ ih =>
    cases h₂ with
    | stop h' => exact absurd h h'
    | step _ hnext' hrest' =>
      obtain ⟨rfl, rfl⟩ := next_unique hnext hnext'
      obtain ⟨rfl, rfl⟩ := ih hrest'
      exact ⟨rfl, rfl⟩

theorem Reads.unique {r r₁ r₂ : Reader} {cs : List Char} (h₁ : r.Reads cs r₁)
    (h₂ : r.Reads cs r₂) : r₁ = r₂ := by
  induction h₁ with
  | nil _ =>
    cases h₂
    rfl
  | cons hnext _ ih =>
    cases h₂ with
    | cons hnext' hrest' =>
      obtain ⟨-, rfl⟩ := next_unique hnext hnext'
      exact ih hrest'

theorem SkipsGap.unique {r r₁ r₂ : Reader} (h₁ : r.SkipsGap r₁) (h₂ : r.SkipsGap r₂) :
    r₁ = r₂ := by
  induction h₁ with
  | stop h =>
    cases h₂ with
    | stop _ => rfl
    | layout h' _ _ _ => exact absurd h' h
    | comment h' _ _ _ => exact absurd h' h
  | layout h hlayout hnext _ ih =>
    cases h₂ with
    | stop h' => exact absurd h h'
    | layout _ _ hnext' hrest' =>
      obtain ⟨-, rfl⟩ := next_unique hnext hnext'
      exact ih hrest'
    | comment _ hlayout' _ _ => exact absurd hlayout hlayout'
  | comment h hlayout hline _ ih =>
    cases h₂ with
    | stop h' => exact absurd h h'
    | layout _ hlayout' _ _ => exact absurd hlayout' hlayout
    | comment _ _ hline' hrest' =>
      obtain ⟨-, rfl⟩ := hline.unique hline'
      exact ih hrest'

theorem ReadsFraction.unique {r r₁ r₂ : Reader} {cs ds : List Char} (h₁ : r.ReadsFraction cs r₁)
    (h₂ : r.ReadsFraction ds r₂) : cs = ds ∧ r₁ = r₂ := by
  cases h₁ with
  | none h =>
    cases h₂ with
    | none _ => exact ⟨rfl, rfl⟩
    | some h' _ _ => exact absurd h' h
  | some h hnext hdigits =>
    cases h₂ with
    | none h' => exact absurd h h'
    | some _ hnext' hdigits' =>
      obtain ⟨rfl, rfl⟩ := next_unique hnext hnext'
      obtain ⟨rfl, rfl⟩ := hdigits.unique hdigits'
      exact ⟨rfl, rfl⟩

theorem ReadsLexeme.unique {r r₁ r₂ : Reader} {l₁ l₂ : Lexeme} (h₁ : r.ReadsLexeme l₁ r₁)
    (h₂ : r.ReadsLexeme l₂ r₂) : l₁ = l₂ ∧ r₁ = r₂ := by
  cases h₁ with
  | word hletter hword =>
    cases h₂ with
    | word _ hword' =>
      obtain ⟨rfl, rfl⟩ := hword.unique hword'
      exact ⟨rfl, rfl⟩
    | number hletter' _ _ _ => exact absurd hletter hletter'
    | operator hletter' _ _ _ => exact absurd hletter hletter'
    | stray hletter' _ _ _ => exact absurd hletter hletter'
  | number hletter hdigit hdigits hfraction =>
    cases h₂ with
    | word hletter' _ => exact absurd hletter' hletter
    | number _ _ hdigits' hfraction' =>
      obtain ⟨rfl, rfl⟩ := hdigits.unique hdigits'
      obtain ⟨rfl, rfl⟩ := hfraction.unique hfraction'
      exact ⟨rfl, rfl⟩
    | operator _ hdigit' _ _ => exact absurd hdigit hdigit'
    | stray _ hdigit' _ _ => exact absurd hdigit hdigit'
  | operator hletter hdigit hseen hreads =>
    cases h₂ with
    | word hletter' _ => exact absurd hletter' hletter
    | number _ hdigit' _ _ => exact absurd hdigit' hdigit
    | operator _ _ hseen' hreads' =>
      obtain rfl := Option.some.inj (hseen.symm.trans hseen')
      exact ⟨rfl, hreads.unique hreads'⟩
    | stray _ _ hseen' _ => cases hseen.symm.trans hseen'
  | stray hletter hdigit hseen hnext =>
    cases h₂ with
    | word hletter' _ => exact absurd hletter' hletter
    | number _ hdigit' _ _ => exact absurd hdigit' hdigit
    | operator _ _ hseen' _ => cases hseen.symm.trans hseen'
    | stray _ _ _ hnext' =>
      obtain ⟨rfl, rfl⟩ := next_unique hnext hnext'
      exact ⟨rfl, rfl⟩

/-- **At most one token is found.** -/
theorem Finds.unique {r r₁ r₂ : Reader} {t₁ t₂ : Token} (h₁ : r.Finds t₁ r₁)
    (h₂ : r.Finds t₂ r₂) : t₁ = t₂ ∧ r₁ = r₂ := by
  cases h₁ with
  | finish hgap hend =>
    cases h₂ with
    | finish hgap' _ =>
      obtain rfl := hgap.unique hgap'
      exact ⟨rfl, rfl⟩
    | lexeme hgap' hend' _ =>
      obtain rfl := hgap.unique hgap'
      cases hend.symm.trans hend'
  | lexeme hgap hend hlexeme =>
    cases h₂ with
    | finish hgap' hend' =>
      obtain rfl := hgap.unique hgap'
      cases hend.symm.trans hend'
    | lexeme hgap' _ hlexeme' =>
      obtain rfl := hgap.unique hgap'
      obtain ⟨rfl, rfl⟩ := hlexeme.unique hlexeme'
      exact ⟨rfl, rfl⟩

/-! ### What a reader sees of the text ahead -/

variable {r : Reader} {c : Char} {cs : List Char}

theorem peek_of_nonneg (h : 0 ≤ r.position) (n : Nat) : r.peek n = r.ahead[n]? := by
  rw [peek, charAt?, if_neg (by omega), ahead_of_nonneg h, List.getElem?_drop,
    show (r.position + (n : Int)).toNat = r.position.toNat + n by omega]

theorem peek_zero (h : 0 ≤ r.position) : r.peek 0 = r.ahead.head? := by
  rw [List.head?_eq_getElem?]
  exact peek_of_nonneg h 0

theorem peek_one (h : 0 ≤ r.position) (hr : r.ahead = c :: cs) : r.peek 1 = cs.head? := by
  have hpeek := peek_of_nonneg h 1
  rw [hr, List.getElem?_cons_succ, ← List.head?_eq_getElem?] at hpeek
  exact hpeek

theorem atEnd_eq_false (h : 0 ≤ r.position) (hr : r.ahead = c :: cs) : r.atEnd = false := by
  rw [← Bool.not_eq_true, atEnd_iff h, hr]
  exact List.cons_ne_nil c cs

theorem sees_iff {p : Char → Bool} (h : 0 ≤ r.position) (hr : r.ahead = c :: cs) :
    r.Sees p ↔ p c = true := by
  rw [Sees, peek_zero h, hr, List.head?_cons]
  simp

theorem seesOnly_iff {p : Char → Bool} (h : 0 ≤ r.position) (hr : r.ahead = c :: cs) :
    r.SeesOnly p ↔ p c = true := by
  rw [SeesOnly, peek_zero h, hr, List.head?_cons]
  simp

theorem inGap_iff (h : 0 ≤ r.position) (hr : r.ahead = c :: cs) :
    r.InGap ↔ belongsToGap false c cs = true := by
  have hslashes : r.SeesSlashes ↔ beginsComment (c :: cs) = true := by
    rw [SeesSlashes, peek_zero h, peek_one h hr, hr, beginsComment_iff, List.head?_cons,
      Option.some_inj]
  rw [InGap, sees_iff h hr, hslashes, belongsToGap, atEnd_eq_false h hr, Bool.false_or,
    Bool.or_eq_true, or_comm]
  exact and_iff_right rfl

theorem operatorSeen?_eq (h : 0 ≤ r.position) (hr : r.ahead = c :: cs) :
    r.operatorSeen? = (Lexeme.operator? c cs).map Prod.fst := by
  have hshort : (Lexeme.shortOperator? c cs).map Prod.fst =
      (Lexeme.operatorKind? [c]).map fun k => ⟨k, [c]⟩ := Option.map_map ..
  rw [operatorSeen?, peek_zero h, peek_one h hr, hr, List.head?_cons]
  cases cs with
  | nil => exact hshort.symm
  | cons d ds =>
    rw [List.head?_cons]
    dsimp only
    rw [Lexeme.operator?]
    cases Lexeme.operatorKind? [c, d] with
    | some k => rfl
    | none => exact hshort.symm

/-! ### The next token is found -/

theorem ahead_past_takeWhile (p : Char → Bool) (h : 0 ≤ r.position) (hr : r.ahead = cs) :
    (r.past (cs.takeWhile p)).ahead = cs.dropWhile p :=
  ahead_past h (hr.trans List.takeWhile_append_dropWhile.symm)

/-- A loop whose condition asks for a class of the next character reads the run of that class. -/
theorem readsWhile_takeWhile {goesOn : Reader → Prop} {p : Char → Bool}
    (hgoesOn : ∀ {r : Reader}, 0 ≤ r.position → (goesOn r ↔ ∃ c ∈ r.ahead.head?, p c = true))
    (h : 0 ≤ r.position) (hr : r.ahead = cs) :
    r.ReadsWhile goesOn (cs.takeWhile p) (r.past (cs.takeWhile p)) := by
  have hiff := hgoesOn h
  rw [hr] at hiff
  induction cs generalizing r with
  | nil =>
    rw [List.takeWhile_nil, past_nil]
    exact .stop (by simp [hiff])
  | cons c cs ih =>
    rw [List.takeWhile_cons]
    split
    · next hc =>
      have hpos := nonneg_past h [c]
      have hahead : (r.past [c]).ahead = cs := ahead_past h hr
      have hrest := ih hpos hahead (hahead ▸ hgoesOn hpos)
      rw [← past_append, List.singleton_append] at hrest
      exact .step (hiff.mpr ⟨c, rfl, hc⟩) (next_of_ahead h hr) hrest
    · next hc =>
      rw [past_nil]
      exact .stop (by simp [hiff, hc])

theorem readsWhile_sees (p : Char → Bool) (h : 0 ≤ r.position) (hr : r.ahead = cs) :
    r.ReadsWhile (Sees p) (cs.takeWhile p) (r.past (cs.takeWhile p)) := by
  refine readsWhile_takeWhile (fun {r} h => ?_) h hr
  rw [Sees, peek_zero h]
  rfl

theorem readsWhile_inLine (h : 0 ≤ r.position) (hr : r.ahead = cs) :
    r.ReadsWhile InLine (cs.takeWhile (· ≠ '\n')) (r.past (cs.takeWhile (· ≠ '\n'))) := by
  refine readsWhile_takeWhile (fun {r} h => ?_) h hr
  rw [InLine, peek_zero h]
  cases hr : r.ahead with
  | nil => simp [(atEnd_iff h).mpr hr]
  | cons c cs => simp [atEnd_eq_false h hr]

theorem skipsGap_past (h : 0 ≤ r.position) (hr : r.ahead = cs) :
    r.SkipsGap (r.past (splitGap false cs).1) := by
  -- a comment is passed as a whole, so the induction is on the length of what is left
  induction hn : cs.length using Nat.strong_induction_on generalizing r cs with
  | _ n ih =>
    subst hn
    cases cs with
    | nil =>
      rw [splitGap, past_nil]
      refine .stop fun hgap => ?_
      cases hgap.1.symm.trans ((atEnd_iff h).mpr hr)
    | cons c cs =>
      have hgap := inGap_iff h hr
      have hsees : r.Sees isLayout ↔ isLayout c = true := sees_iff h hr
      by_cases hb : belongsToGap false c cs = true
      swap
      · have hends : EndsGap (c :: cs) := Bool.eq_false_iff.mpr hb
        rw [splitGap_of_endsGap hends, past_nil]
        exact .stop fun h => hb (hgap.mp h)
      by_cases hlayout : isLayout c = true
      · have hrest := ih _ (Nat.lt_succ_self _) (nonneg_past h [c]) (ahead_past h hr) rfl
        rw [← past_append, List.singleton_append] at hrest
        rw [splitGap_layout cs hlayout]
        exact .layout (hgap.mpr hb) (hsees.mpr hlayout) (next_of_ahead h hr) hrest
      · obtain ⟨ds, rfl, rfl⟩ := exists_slashes hb hlayout
        have hlt : (ds.dropWhile (· ≠ '\n')).length < ('/' :: '/' :: ds).length :=
          Nat.lt_succ_of_le (Nat.le_succ_of_le (List.length_dropWhile_le _ ds))
        have hrest := ih _ hlt (nonneg_past h _) (ahead_past_takeWhile (· ≠ '\n') h hr) rfl
        rw [splitGap_comment, past_append]
        exact .comment (hgap.mpr hb) (fun h => hlayout (hsees.mp h)) (readsWhile_inLine h hr) hrest

theorem readsFraction_past (h : 0 ≤ r.position) (hr : r.ahead = cs) :
    r.ReadsFraction (Lexeme.fraction cs).1 (r.past (Lexeme.fraction cs).1) := by
  have hseen : r.SeesFraction ↔ ∃ d ds, cs = '.' :: d :: ds ∧ d.isDigit = true := by
    rw [SeesFraction, peek_zero h, hr]
    cases cs with
    | nil => simp
    | cons c cs =>
      rw [peek_one h hr]
      cases cs <;> simp
  by_cases hfraction : r.SeesFraction
  · obtain ⟨d, ds, rfl, hd⟩ := hseen.mp hfraction
    have hdigits := readsWhile_sees Char.isDigit (nonneg_past h ['.']) (ahead_past h hr)
    rw [List.takeWhile_cons_of_pos hd, ← past_append] at hdigits
    rw [Lexeme.fraction, if_pos hd]
    exact .some hfraction (next_of_ahead h hr) hdigits
  · have hnone : (Lexeme.fraction cs).1 = [] := by
      unfold Lexeme.fraction
      split
      · next d ds =>
        rw [if_neg fun hd => hfraction (hseen.mpr ⟨d, ds, rfl, hd⟩)]
      · rfl
    rw [hnone, past_nil]
    exact .none hfraction

theorem readsLexeme_scan (h : 0 ≤ r.position) (hr : r.ahead = c :: cs) :
    r.ReadsLexeme (Lexeme.scan c cs).1 (r.past (Lexeme.scan c cs).1.chars) := by
  have hletter : r.Sees isLetter ↔ isLetter c = true := sees_iff h hr
  have hdigit : r.SeesOnly Char.isDigit ↔ c.isDigit = true := seesOnly_iff h hr
  rw [Lexeme.scan]
  by_cases hc : isLetter c = true
  · have hpart : isWordPart c = true := by rw [isWordPart, hc, Bool.true_or]
    have hword := readsWhile_sees isWordPart h hr
    rw [List.takeWhile_cons_of_pos hpart] at hword
    rw [if_pos hc]
    exact .word (hletter.mpr hc) hword
  rw [if_neg hc]
  replace hc : ¬ r.Sees isLetter := fun h => hc (hletter.mp h)
  by_cases hd : c.isDigit = true
  · have hdigits := readsWhile_sees Char.isDigit h hr
    have hfraction := readsFraction_past (nonneg_past h _) (ahead_past_takeWhile Char.isDigit h hr)
    rw [← past_append, List.takeWhile_cons_of_pos hd, List.dropWhile_cons_of_pos hd] at hfraction
    rw [List.takeWhile_cons_of_pos hd] at hdigits
    rw [if_pos hd]
    exact .number hc (hdigit.mpr hd) hdigits hfraction
  rw [if_neg hd]
  replace hd : ¬ r.SeesOnly Char.isDigit := fun h => hd (hdigit.mp h)
  have hseen := operatorSeen?_eq h hr
  cases ho : Lexeme.operator? c cs with
  | none =>
    rw [ho] at hseen
    exact .stray hc hd hseen (next_of_ahead h hr)
  | some x =>
    rw [ho] at hseen
    exact .operator hc hd hseen (reads_past h (hr.trans (Lexeme.operator?_append ho).symm))

theorem finds_nextToken_of_nonneg (h : 0 ≤ r.position) : r.Finds r.nextToken.1 r.nextToken.2 := by
  have hgap : r.SkipsGap r.skipGap := skipsGap_past h rfl
  have hpos : 0 ≤ r.skipGap.position := nonneg_past h _
  rw [nextToken]
  by_cases hend : r.skipGap.atEnd = true
  · rw [if_pos hend]
    exact .finish hgap hend
  · rw [if_neg hend]
    cases hr : r.skipGap.ahead with
    | nil => exact absurd ((atEnd_iff hpos).mpr hr) hend
    | cons c cs => exact .lexeme hgap ((Bool.not_eq_true _).mp hend) (readsLexeme_scan hpos hr)

/-- Before the text nothing is seen, so no loop begins, and a number without digits is found. -/
theorem finds_nextToken_of_neg (h : r.position < 0) : r.Finds r.nextToken.1 r.nextToken.2 := by
  have hpeek : r.peek 0 = none := by rw [peek, Int.add_zero, charAt?, if_pos h]
  have hend : r.atEnd = false := by
    rw [atEnd, decide_eq_false_iff_not]
    omega
  have hsees (p : Char → Bool) : ¬ r.Sees p := by simp [Sees, hpeek]
  have hgap : ¬ r.InGap := by simp [InGap, SeesSlashes, hsees, hpeek]
  have hdigit : r.SeesOnly Char.isDigit := by simp [SeesOnly, hpeek]
  have hfraction : ¬ r.SeesFraction := by simp [SeesFraction, hpeek]
  rw [nextToken_of_neg h]
  exact .lexeme (.stop hgap) hend
    (.number (hsees isLetter) hdigit (.stop (hsees Char.isDigit)) (.none hfraction))

/-- **The token that is found by looking and stepping is the next token**, wherever the reader
stands. -/
theorem finds_iff {r r' : Reader} {t : Token} : r.Finds t r' ↔ r.nextToken = (t, r') := by
  have hnext : r.Finds r.nextToken.1 r.nextToken.2 := by
    by_cases h : 0 ≤ r.position
    · exact finds_nextToken_of_nonneg h
    · exact finds_nextToken_of_neg (by omega)
  constructor
  · intro h
    obtain ⟨ht, hr⟩ := hnext.unique h
    exact Prod.ext ht hr
  · intro h
    rw [h] at hnext
    exact hnext

/-- **The tokens that are found one after the other are all tokens.** -/
theorem lexes_iff {r r' : Reader} {ts : List Token} :
    r.Lexes ts r' ↔ r.tokens? = some (ts, r') := by
  rw [tokens?_eq_some_iff]
  constructor
  · intro h
    induction h with
    | last h hkind =>
      obtain ⟨rfl, rfl⟩ := Prod.ext_iff.mp (finds_iff.mp h)
      exact .last hkind
    | step h hkind _ ih =>
      obtain ⟨rfl, rfl⟩ := Prod.ext_iff.mp (finds_iff.mp h)
      exact .step hkind ih
  · intro h
    induction h with
    | last h => exact .last (finds_iff.mpr rfl) h
    | step h _ ih => exact .step (finds_iff.mpr rfl) h ih

end Reader

end AelSyntax
