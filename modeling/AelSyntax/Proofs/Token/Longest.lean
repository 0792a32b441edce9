import AelSyntax.Token.Lexeme
import Mathlib.Data.List.TakeWhile
import Mathlib.Tactic.Common

/-! # Longest lexemes

`Spells k cs` says which characters a lexeme of kind `k` may consist of: a word is a letter with
letters and digits behind it, a number is a run of digits with or without a fraction, and the
operators and parentheses are those of the table. Nothing is said about how a lexeme is found. At
the beginning of a text stands the longest prefix that is spelled so; if there is none, the first
character stands for itself (`IsFirstLexeme`).

* `spells_iff`: the operators and parentheses, and the words that are no names, stand in two tables.
* `isFirstLexeme_scan`: the scan finds the first lexeme of a text.
* `IsFirstLexeme.unique`: a text has only one. -/

namespace AelSyntax

open AelSyntax.Text

/-- One or more ASCII digits. -/
def IsDigits (cs : List Char) : Prop := cs ≠ [] ∧ ∀ c ∈ cs, c.isDigit = true

/-- Digits, or digits, a point and digits. -/
inductive IsNumber : List Char → Prop
  | whole {ds : List Char} (h : IsDigits ds) : IsNumber ds
  | fraction {ds fs : List Char} (h : IsDigits ds) (hf : IsDigits fs) : IsNumber (ds ++ '.' :: fs)

/-- A letter, followed by letters and digits. -/
def IsWord : List Char → Prop
  | [] => False
  | c :: cs => isLetter c = true ∧ ∀ d ∈ cs, isWordPart d = true

instance : DecidablePred IsWord
  | [] => instDecidableFalse
  | c :: cs => decidable_of_iff (isLetter c = true ∧ cs.all isWordPart = true)
    (and_congr_right fun _ => List.all_eq_true)

/-- The characters may be a lexeme of a kind. -/
inductive Spells : Kind → List Char → Prop
  | word {cs : List Char} (h : IsWord cs) : Spells (Lexeme.wordKind cs) cs
  | number {cs : List Char} (h : IsNumber cs) : Spells .number cs
  | operator {k : Kind} {cs : List Char} (h : Lexeme.operatorKind? cs = some k) : Spells k cs

/-- The longest lexeme in front of a text, or the single character that begins none. -/
def IsFirstLexeme (l : Lexeme) (rest : List Char) : Prop :=
  (Spells l.kind l.chars ∧ ∀ k cs rest', cs ++ rest' = l.chars ++ rest → Spells k cs →
      cs.length ≤ l.chars.length) ∨
    (l.kind = .unknown ∧ l.chars.length = 1 ∧
      ∀ k cs rest', cs ++ rest' = l.chars ++ rest → ¬ Spells k cs)

/-! ### Tables of spellings -/

/-- The operators and parentheses, each with its spelling. -/
def operatorSpellings : List (Kind × String) :=
  [(.equals, "=="), (.power, "**"), (.assign, "="), (.plus, "+"), (.minus, "-"), (.times, "*"),
    (.divide, "/"), (.modulo, "%"), (.openParen, "("), (.closeParen, ")")]

/-- The words that are no names, each with its spelling. -/
def wordSpellings : List (Kind × String) :=
  [(.letWord, "let"), (.printWord, "print"), (.absWord, "abs"), (.sqrtWord, "sqrt")]

theorem operatorKind?_eq_some {cs : List Char} {k : Kind} :
    Lexeme.operatorKind? cs = some k ↔ (k, String.ofList cs) ∈ operatorSpellings := by
  constructor
  · intro h
    unfold Lexeme.operatorKind? at h
    split at h
    case h_11 => cases h
    all_goals
      cases h
      decide
  · intro h
    have hall : ∀ p ∈ operatorSpellings, Lexeme.operatorKind? p.2.toList = some p.1 := by decide
    simpa only [String.toList_ofList] using hall _ h

theorem wordKind_eq_iff {cs : List Char} {k : Kind} :
    Lexeme.wordKind cs = k ↔ (k, String.ofList cs) ∈ wordSpellings ∨
      k = .identifier ∧ ∀ k', (k', String.ofList cs) ∉ wordSpellings := by
  have hall : ∀ p ∈ wordSpellings, Lexeme.wordKind p.2.toList = p.1 ∧ p.1 ≠ .identifier := by
    decide
  have hmem {k : Kind} (h : (k, String.ofList cs) ∈ wordSpellings) :
      Lexeme.wordKind cs = k ∧ k ≠ .identifier := by
    simpa only [String.toList_ofList] using hall _ h
  have hword : (Lexeme.wordKind cs, String.ofList cs) ∈ wordSpellings ∨
      Lexeme.wordKind cs = .identifier := by
    unfold Lexeme.wordKind
    split
    case h_5 => exact .inr rfl
    all_goals exact .inl (by decide)
  constructor
  · rintro rfl
    refine hword.imp_right fun hname => ⟨hname, fun k' h => ?_⟩
    exact (hmem h).2 ((hmem h).1 ▸ hname)
  · rintro (h | ⟨rfl, hnone⟩)
    · exact (hmem h).1
    · exact hword.resolve_left (hnone _)

/-- **What the lexemes are**: the operators and parentheses of one table, the words of another, the
names, which are all other words, and the numbers. -/
theorem spells_iff {k : Kind} {cs : List Char} : Spells k cs ↔
    (k, String.ofList cs) ∈ operatorSpellings ∨ (k, String.ofList cs) ∈ wordSpellings ∨
      (k = .identifier ∧ IsWord cs ∧ ∀ k', (k', String.ofList cs) ∉ wordSpellings) ∨
      (k = .number ∧ IsNumber cs) := by
  constructor
  · intro h
    cases h with
    | word h =>
      rcases wordKind_eq_iff.mp (rfl : Lexeme.wordKind cs = _) with hword | ⟨hname, hnone⟩
      · exact .inr (.inl hword)
      · exact .inr (.inr (.inl ⟨hname, h, hnone⟩))
    | number h => exact .inr (.inr (.inr ⟨rfl, h⟩))
    | operator h => exact .inl (operatorKind?_eq_some.mp h)
  · rintro (h | h | ⟨rfl, h, hnone⟩ | ⟨rfl, h⟩)
    · exact .operator (operatorKind?_eq_some.mpr h)
    · have hall : ∀ p ∈ wordSpellings, IsWord p.2.toList := by decide
      have hword : IsWord cs := by simpa only [String.toList_ofList] using hall _ h
      exact wordKind_eq_iff.mpr (.inl h) ▸ .word hword
    · exact wordKind_eq_iff.mpr (.inr ⟨rfl, hnone⟩) ▸ .word h
    · exact .number h

/-! ### The first character decides -/

theorem toNat_of_isDigit {c : Char} (h : c.isDigit = true) : 48 ≤ c.toNat ∧ c.toNat ≤ 57 := by
  rw [Char.isDigit, Bool.and_eq_true, decide_eq_true_eq, decide_eq_true_eq] at h
  exact ⟨UInt32.le_iff_toNat_le.mp h.1, UInt32.le_iff_toNat_le.mp h.2⟩

/-- No character before the capital letters of ASCII is a letter. -/
theorem isLetter_eq_false_of_lt {c : Char} (h : c.toNat < 65) : isLetter c = false := by
  rw [isLetter, if_pos (by omega)]
  refine Bool.or_eq_false_iff.mpr
    ⟨decide_eq_false ?_, Bool.and_eq_false_iff.mpr (.inl (decide_eq_false ?_))⟩
  · rintro ⟨hge, -⟩
    have : 65 ≤ c.toNat := UInt32.le_iff_toNat_le.mp hge
    omega
  · intro hge
    have : 97 ≤ c.toNat := UInt32.le_iff_toNat_le.mp hge
    omega

theorem isLetter_eq_false_of_isDigit {c : Char} (h : c.isDigit = true) : isLetter c = false := by
  have := (toNat_of_isDigit h).2
  exact isLetter_eq_false_of_lt (by omega)

theorem isDigit_eq_false_of_isLetter {c : Char} (h : isLetter c = true) : c.isDigit = false := by
  by_contra hd
  rw [isLetter_eq_false_of_isDigit (by simpa using hd)] at h
  cases h

/-- An operator or parenthesis has one or two characters, and begins neither a word nor a number. -/
theorem of_operatorKind?_cons {c : Char} {cs : List Char} {k : Kind}
    (h : Lexeme.operatorKind? (c :: cs) = some k) :
    isLetter c = false ∧ c.isDigit = false ∧ cs.length ≤ 1 := by
  have hall : ∀ p ∈ operatorSpellings, p.2.toList.length ≤ 2 ∧
      p.2.toList.head?.all (fun d => !isLetter d && !d.isDigit) = true := by decide
  obtain ⟨hlength, hfirst⟩ := hall _ (operatorKind?_eq_some.mp h)
  rw [String.toList_ofList] at hlength hfirst
  have hc : isLetter c = false ∧ c.isDigit = false := by simpa using hfirst
  exact ⟨hc.1, hc.2, Nat.le_of_succ_le_succ hlength⟩

theorem operatorKind?_ne_nil {cs : List Char} {k : Kind} (h : Lexeme.operatorKind? cs = some k) :
    cs ≠ [] := by
  rintro rfl
  cases h

theorem IsNumber.exists_cons {cs : List Char} (h : IsNumber cs) :
    ∃ d ds, cs = d :: ds ∧ d.isDigit = true := by
  rcases h with ⟨hne, hall⟩ | ⟨⟨hne, hall⟩, -⟩
  · obtain ⟨d, ds, rfl⟩ := List.exists_cons_of_ne_nil hne
    exact ⟨d, ds, rfl, hall d (by simp)⟩
  · obtain ⟨d, ds, rfl⟩ := List.exists_cons_of_ne_nil hne
    exact ⟨d, _, rfl, hall d (by simp)⟩

theorem Spells.ne_nil {k : Kind} {cs : List Char} (h : Spells k cs) : cs ≠ [] := by
  cases h with
  | word h => rintro rfl; exact h
  | number h =>
    obtain ⟨d, ds, rfl, -⟩ := h.exists_cons
    simp
  | operator h => exact operatorKind?_ne_nil h

theorem Spells.of_isLetter {k : Kind} {c : Char} {cs : List Char} (h : Spells k (c :: cs))
    (hc : isLetter c = true) : k = Lexeme.wordKind (c :: cs) ∧ ∀ d ∈ cs, isWordPart d = true := by
  cases h with
  | word h => exact ⟨rfl, h.2⟩
  | number h =>
    obtain ⟨d, ds, heq, hd⟩ := h.exists_cons
    obtain ⟨rfl, rfl⟩ := List.cons.inj heq
    rw [isLetter_eq_false_of_isDigit hd] at hc
    cases hc
  | operator h => rw [(of_operatorKind?_cons h).1] at hc; cases hc

theorem Spells.of_isDigit {k : Kind} {c : Char} {cs : List Char} (h : Spells k (c :: cs))
    (hc : c.isDigit = true) : k = .number ∧ IsNumber (c :: cs) := by
  cases h with
  | word h => rw [isDigit_eq_false_of_isLetter h.1] at hc; cases hc
  | number h => exact ⟨rfl, h⟩
  | operator h => rw [(of_operatorKind?_cons h).2.1] at hc; cases hc

theorem Spells.of_other {k : Kind} {c : Char} {cs : List Char} (h : Spells k (c :: cs))
    (hl : isLetter c = false) (hd : c.isDigit = false) :
    Lexeme.operatorKind? (c :: cs) = some k := by
  cases h with
  | word h => rw [h.1] at hl; cases hl
  | number h =>
    obtain ⟨d, ds, heq, hd'⟩ := h.exists_cons
    obtain ⟨rfl, rfl⟩ := List.cons.inj heq
    rw [hd'] at hd
    cases hd
  | operator h => exact h

/-- The characters of a lexeme determine its kind. -/
theorem Spells.kind_unique {k k' : Kind} {cs : List Char} (h : Spells k cs) (h' : Spells k' cs) :
    k = k' := by
  obtain ⟨c, cs, rfl⟩ := List.exists_cons_of_ne_nil h.ne_nil
  by_cases hl : isLetter c = true
  · rw [(h.of_isLetter hl).1, (h'.of_isLetter hl).1]
  by_cases hd : c.isDigit = true
  · rw [(h.of_isDigit hd).1, (h'.of_isDigit hd).1]
  rw [Bool.not_eq_true] at hl hd
  have hop := h.of_other hl hd
  rw [h'.of_other hl hd] at hop
  exact (Option.some.inj hop).symm

/-! ### Kinds with one text -/

/-- The text of a kind that has only one. -/
def Kind.fixedText? (k : Kind) : Option String :=
  ((operatorSpellings ++ wordSpellings).find? fun p => p.1 = k).map Prod.snd

theorem Kind.fixedText?_eq_some {k : Kind} {s : String} :
    k.fixedText? = some s ↔ (k, s) ∈ operatorSpellings ∨ (k, s) ∈ wordSpellings := by
  rw [← List.mem_append]
  constructor
  · intro h
    obtain ⟨p, hp, rfl⟩ := Option.map_eq_some_iff.mp h
    have hkind : p.1 = k := by simpa using List.find?_some hp
    exact hkind ▸ List.mem_of_find?_eq_some hp
  · intro h
    have hall : ∀ p ∈ operatorSpellings ++ wordSpellings, p.1.fixedText? = some p.2 := by decide
    exact hall _ h

/-- A lexeme is a name, a number or the text of its kind. -/
theorem Spells.cases_fixedText? {k : Kind} {cs : List Char} (h : Spells k cs) :
    k = .identifier ∨ k = .number ∨ k.fixedText? = some (String.ofList cs) := by
  rcases spells_iff.mp h with hop | hword | ⟨hname, -⟩ | ⟨hnumber, -⟩
  · exact .inr (.inr (Kind.fixedText?_eq_some.mpr (.inl hop)))
  · exact .inr (.inr (Kind.fixedText?_eq_some.mpr (.inr hword)))
  · exact .inl hname
  · exact .inr (.inl hnumber)

theorem Spells.of_fixedText? {k : Kind} {s : String} (h : k.fixedText? = some s) :
    Spells k s.toList := by
  rw [Kind.fixedText?_eq_some] at h
  rw [spells_iff, String.ofList_toList, ← or_assoc]
  exact .inl h

theorem Spells.isNumber {cs : List Char} (h : Spells .number cs) : IsNumber cs := by
  have hall : ∀ p ∈ operatorSpellings ++ wordSpellings, p.1 ≠ .number := by decide
  rcases spells_iff.mp h with hop | hword | ⟨hname, -⟩ | ⟨-, hnumber⟩
  · exact absurd rfl (hall _ (List.mem_append_left _ hop))
  · exact absurd rfl (hall _ (List.mem_append_right _ hword))
  · cases hname
  · exact hnumber

/-- No lexeme stands for the end of a text. -/
theorem IsFirstLexeme.kind_ne_finish {l : Lexeme} {rest : List Char} (h : IsFirstLexeme l rest) :
    l.kind ≠ .finish := by
  intro hk
  rcases h with ⟨h, -⟩ | ⟨h, -⟩
  · rw [hk] at h
    rcases h.cases_fixedText? with h | h | h <;> cases h
  · rw [hk] at h
    cases h

/-! ### The scan -/

namespace Lexeme

theorem word_longest {c : Char} {cs v rest : List Char} (hv : v ++ rest = c :: cs)
    (hw : ∀ d ∈ v.tail, isWordPart d = true) : v.length ≤ (word c cs).1.chars.length := by
  cases v with
  | nil => simp
  | cons d vs =>
    rw [List.cons_append, List.cons.injEq] at hv
    obtain ⟨rfl, rfl⟩ := hv
    rw [List.tail_cons] at hw
    rw [word, List.takeWhile_append_of_pos hw]
    simp

theorem fraction_point {f : Char} (cs : List Char) (hf : f.isDigit = true) :
    fraction ('.' :: f :: cs) =
      ('.' :: f :: cs.takeWhile Char.isDigit, cs.dropWhile Char.isDigit) :=
  if_pos hf

theorem fraction_eq_nil_or (cs : List Char) :
    (fraction cs).1 = [] ∨ ∃ fs, IsDigits fs ∧ (fraction cs).1 = '.' :: fs := by
  unfold fraction
  split
  · split
    · next c cs hc =>
      refine .inr ⟨c :: cs.takeWhile Char.isDigit, ⟨by simp, fun d hd => ?_⟩, rfl⟩
      rcases List.mem_cons.mp hd with rfl | hd
      · exact hc
      · exact List.mem_takeWhile_imp hd
    · exact .inl rfl
  · exact .inl rfl

theorem isNumber_number {c : Char} (cs : List Char) (hc : c.isDigit = true) :
    IsNumber (number c cs).1.chars := by
  have hds : IsDigits (c :: cs.takeWhile Char.isDigit) := by
    refine ⟨by simp, fun d hd => ?_⟩
    rcases List.mem_cons.mp hd with rfl | hd
    · exact hc
    · exact List.mem_takeWhile_imp hd
  show IsNumber (c :: (cs.takeWhile Char.isDigit ++ (fraction (cs.dropWhile Char.isDigit)).1))
  rcases fraction_eq_nil_or (cs.dropWhile Char.isDigit) with h | ⟨fs, hfs, h⟩
  · rw [h, List.append_nil]
    exact .whole hds
  · rw [h, ← List.cons_append]
    exact .fraction hds hfs

theorem number_longest {c : Char} {cs v rest : List Char} (hv : v ++ rest = c :: cs)
    (hn : IsNumber v) : v.length ≤ (number c cs).1.chars.length := by
  show v.length ≤
    (c :: (cs.takeWhile Char.isDigit ++ (fraction (cs.dropWhile Char.isDigit)).1)).length
  rw [List.length_cons, List.length_append]
  rcases hn with ⟨-, hds⟩ | @⟨ds, fs, ⟨hne, hds⟩, hfne, hfs⟩
  · cases v with
    | nil => simp
    | cons d ds =>
      rw [List.cons_append, List.cons.injEq] at hv
      obtain ⟨rfl, rfl⟩ := hv
      rw [List.takeWhile_append_of_pos fun a ha => hds a (List.mem_cons_of_mem _ ha)]
      rw [List.length_cons, List.length_append]
      omega
  · obtain ⟨d, ds, rfl⟩ := List.exists_cons_of_ne_nil hne
    obtain ⟨f, fs, rfl⟩ := List.exists_cons_of_ne_nil hfne
    rw [List.append_assoc, List.cons_append, List.cons.injEq] at hv
    obtain ⟨rfl, rfl⟩ := hv
    have hds' : ∀ a ∈ ds, a.isDigit = true := fun a ha => hds a (by simp [ha])
    have hfs' : ∀ a ∈ fs, a.isDigit = true := fun a ha => hfs a (by simp [ha])
    have hpoint : ¬ ('.' : Char).isDigit = true := by decide
    rw [List.takeWhile_append_of_pos hds', List.dropWhile_append_of_pos hds',
      List.cons_append, List.cons_append, List.takeWhile_cons_of_neg hpoint,
      List.dropWhile_cons_of_neg hpoint, List.cons_append, fraction_point _ (hfs f (by simp)),
      List.takeWhile_append_of_pos hfs']
    simp only [List.length_append, List.length_cons, List.length_nil]
    omega

/-- An operator or parenthesis in front of a text is its first character or its first two. -/
theorem operator_prefix {c : Char} {cs v rest : List Char} {k : Kind}
    (hv : v ++ rest = c :: cs) (hk : operatorKind? v = some k) :
    v = [c] ∨ ∃ d ds, v = [c, d] ∧ cs = d :: ds := by
  match v with
  | [] => cases hk
  | [_] =>
    rw [List.cons_append, List.cons.injEq] at hv
    exact .inl (by rw [hv.1])
  | _ :: d :: v =>
    have hlen := (of_operatorKind?_cons hk).2.2
    rw [List.length_cons] at hlen
    obtain rfl : v = [] := List.eq_nil_of_length_eq_zero (by omega)
    rw [List.cons_append, List.cons.injEq] at hv
    exact .inr ⟨d, rest, by rw [hv.1], hv.2.symm⟩

theorem operator?_longest {c : Char} {cs v rest : List Char} {r : Lexeme × List Char} {k : Kind}
    (hr : operator? c cs = some r) (hv : v ++ rest = c :: cs) (hk : operatorKind? v = some k) :
    v.length ≤ r.1.chars.length := by
  rcases operator_prefix hv hk with rfl | ⟨d, ds, rfl, rfl⟩
  · exact List.length_pos_iff.mpr (chars_operator?_ne_nil hr)
  · rw [operator?, hk] at hr
    cases hr
    exact Nat.le_refl _

theorem operator?_spells {c : Char} {cs : List Char} {r : Lexeme × List Char}
    (h : operator? c cs = some r) : operatorKind? r.1.chars = some r.1.kind := by
  have short : ∀ {cs r}, shortOperator? c cs = some r →
      operatorKind? r.1.chars = some r.1.kind := by
    intro cs r h
    obtain ⟨k, hk, rfl⟩ := Option.map_eq_some_iff.1 h
    exact hk
  cases cs with
  | nil => exact short h
  | cons d cs =>
    rw [operator?] at h
    split at h
    · next k hk => cases h; exact hk
    · exact short h

theorem operatorKind?_of_operator?_eq_none {c : Char} {cs v rest : List Char}
    (hr : operator? c cs = none) (hv : v ++ rest = c :: cs) : operatorKind? v = none := by
  have hshort : operatorKind? [c] = none := by
    cases cs with
    | nil => exact Option.map_eq_none_iff.1 hr
    | cons d cs =>
      rw [operator?] at hr
      split at hr
      · cases hr
      · exact Option.map_eq_none_iff.1 hr
  by_contra hne
  obtain ⟨k, hk⟩ := Option.ne_none_iff_exists'.1 hne
  rcases operator_prefix hv hk with rfl | ⟨d, ds, rfl, rfl⟩
  · rw [hshort] at hk
    cases hk
  · rw [operator?, hk] at hr
    cases hr

/-- **The scan finds the first lexeme.** -/
theorem isFirstLexeme_scan (c : Char) (cs : List Char) :
    IsFirstLexeme (scan c cs).1 (scan c cs).2 := by
  unfold IsFirstLexeme
  rw [scan_append]
  unfold scan
  by_cases hl : isLetter c = true
  · rw [if_pos hl]
    refine .inl ⟨.word ⟨hl, fun d hd => List.mem_takeWhile_imp hd⟩, fun k v rest hv hk => ?_⟩
    obtain ⟨d, v, rfl⟩ := List.exists_cons_of_ne_nil hk.ne_nil
    obtain ⟨rfl, -⟩ := List.cons.inj hv
    exact word_longest hv (hk.of_isLetter hl).2
  rw [if_neg hl]
  by_cases hd : c.isDigit = true
  · rw [if_pos hd]
    refine .inl ⟨.number (isNumber_number cs hd), fun k v rest hv hk => ?_⟩
    obtain ⟨e, v, rfl⟩ := List.exists_cons_of_ne_nil hk.ne_nil
    obtain ⟨rfl, -⟩ := List.cons.inj hv
    exact number_longest hv (hk.of_isDigit hd).2
  rw [if_neg hd]
  rw [Bool.not_eq_true] at hl hd
  have hother : ∀ k v rest, v ++ rest = c :: cs → Spells k v → operatorKind? v = some k := by
    intro k v rest hv hk
    obtain ⟨e, v, rfl⟩ := List.exists_cons_of_ne_nil hk.ne_nil
    obtain ⟨rfl, -⟩ := List.cons.inj hv
    exact hk.of_other hl hd
  cases h : operator? c cs with
  | some r =>
    exact .inl ⟨.operator (operator?_spells h), fun k v rest hv hk =>
      operator?_longest h hv (hother k v rest hv hk)⟩
  | none =>
    refine .inr ⟨rfl, rfl, fun k v rest hv hk => ?_⟩
    have hop := hother k v rest hv hk
    rw [operatorKind?_of_operator?_eq_none h hv] at hop
    cases hop

end Lexeme

/-! ### There is only one -/

theorem IsFirstLexeme.chars_ne_nil {l : Lexeme} {rest : List Char} (h : IsFirstLexeme l rest) :
    l.chars ≠ [] := by
  rcases h with ⟨h, -⟩ | ⟨-, h, -⟩
  · exact h.ne_nil
  · intro hnil
    rw [hnil] at h
    cases h

/-- **A text has only one first lexeme.** -/
theorem IsFirstLexeme.unique {l l' : Lexeme} {rest rest' : List Char} (h : IsFirstLexeme l rest)
    (h' : IsFirstLexeme l' rest') (heq : l.chars ++ rest = l'.chars ++ rest') :
    l = l' ∧ rest = rest' := by
  rcases l with ⟨k, cs⟩
  rcases l' with ⟨k', cs'⟩
  dsimp only at heq
  rcases h with ⟨hs, hmax⟩ | ⟨hk, hlen, hnone⟩ <;>
    rcases h' with ⟨hs', hmax'⟩ | ⟨hk', hlen', hnone'⟩
  · have hle := hmax _ _ _ heq.symm hs'
    have hle' := hmax' _ _ _ heq hs
    obtain ⟨rfl, rfl⟩ := List.append_inj heq (Nat.le_antisymm hle' hle)
    obtain rfl : k = k' := hs.kind_unique hs'
    exact ⟨rfl, rfl⟩
  · exact absurd hs (hnone' _ _ _ heq)
  · exact absurd hs' (hnone _ _ _ heq.symm)
  · obtain ⟨rfl, rfl⟩ := List.append_inj heq (hlen.trans hlen'.symm)
    obtain rfl : k = k' := hk.trans hk'.symm
    exact ⟨rfl, rfl⟩

end AelSyntax
