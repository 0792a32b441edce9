import AelSyntax.Proofs.Tree.Lines
import Mathlib.Tactic.Common

/-! # A picture determines the tree

An outline is read from the outside in. The line of a node begins with its indentation and its
field, which are known, then the first letter of the kind gives the kind, and what follows it the
texts; the lines of the operands come next, the first operand taking as many as it needs
(`Expr.outline_append_inj`). This needs no more than that a number has no sign, and that no name
holds a newline, so that the lines are found in the picture again (`Expr.Legible`, `numbered_inj`).
Numbers are told apart by their texts because each text is read as the number
(`Numeral.unsigned?_outlineNumber`). -/

namespace AelSyntax

/-! ### Numbers -/

/-- **A number is read from its text in an outline.** -/
theorem Numeral.unsigned?_outlineNumber (m : Magnitude) :
    unsigned? false (outlineNumber (.signed false m)).toList = some (.signed false m) := by
  by_cases hv : ∃ n, (Binary64.signed false m).IsWhole n
  · obtain ⟨n, hn⟩ := hv
    have hread := decimal?_digits Nat.toDigits_ne_nil (isDigit_of_mem_toDigits (n := n))
    rw [digitsValue_toDigits] at hread
    have hnearest : Decimal.nearest ⟨n, 0⟩ = m := by
      obtain ⟨_, _, heq, hm, hunits⟩ := hn
      cases heq
      apply Decimal.nearest_eq_of_units hm
      rw [Int.neg_zero, Int.toNat_zero, Nat.pow_zero, Nat.mul_one, Nat.mul_one, hunits]
    have hsign : ¬ (Binary64.signed false m).isBelowZero = true := by simp [Binary64.isBelowZero]
    rw [outlineNumber_of_isWhole hn, if_neg hsign, String.toList_ofList,
      unsigned?_of_decimal? false hread, hnearest]
  · rw [outlineNumber_of_not_isWhole (not_exists.mp hv), Binary64.written, String.toList_ofList,
      Binary64.withSign, if_neg Bool.false_ne_true, NumberStyle.unsigned?_magnitude]

theorem outlineNumber_inj {m m' : Magnitude}
    (h : outlineNumber (.signed false m) = outlineNumber (.signed false m')) : m = m' := by
  have hread := Numeral.unsigned?_outlineNumber m
  rw [h, Numeral.unsigned?_outlineNumber] at hread
  cases hread
  rfl

/-- Numbers of one value have one text. -/
theorem outlineNumber_congr {v v' : Binary64} (h : v.sameValue v' = true) :
    outlineNumber v = outlineNumber v' := by
  cases v with
  | nan => cases h
  | signed negative m =>
    cases v' with
    | nan => cases h
    | signed negative' m' =>
      simp only [Binary64.sameValue, Bool.and_eq_true, Bool.or_eq_true, beq_iff_eq] at h
      obtain ⟨rfl, rfl | hzero⟩ := h
      · rfl
      · obtain rfl := Magnitude.eq_zero hzero
        have hwhole (b : Bool) : (Binary64.signed b .zero).IsWhole 0 :=
          ⟨b, .zero, rfl, by decide, (Nat.zero_mul unitsInOne).symm⟩
        have hsign (b : Bool) : ¬ (Binary64.signed b .zero).isBelowZero = true := by
          simp [Binary64.isBelowZero, hzero]
        rw [outlineNumber_of_isWhole (hwhole negative), outlineNumber_of_isWhole (hwhole negative'),
          if_neg (hsign negative), if_neg (hsign negative')]

/-! ### Lines -/

theorem outlineLine_inj {depth : ℕ} {label kind kind' : String} {ss ss' : List (String × String)}
    (h : outlineLine depth label kind ss = outlineLine depth label kind' ss') :
    kind ++ String.join (ss.map fun s => " " ++ s.1 ++ "=" ++ s.2) =
      kind' ++ String.join (ss'.map fun s => " " ++ s.1 ++ "=" ++ s.2) := by
  simpa only [outlineLine, String.append_assoc, String.append_right_inj] using h

/-- The kinds of expressions and statements. -/
def kinds : List String :=
  ["LiteralExpression", "IdentifierExpression", "BinaryExpression", "UnaryExpression",
    "Declaration", "Assignment", "PrintStatement"]

/-- The first letter of a kind is seen in the line of a node, and no two kinds share it. -/
theorem kind_eq {depth : ℕ} {label kind kind' : String} {ss ss' : List (String × String)}
    (h : outlineLine depth label kind ss = outlineLine depth label kind' ss')
    (hkind : kind ∈ kinds) (hkind' : kind' ∈ kinds) : kind = kind' := by
  have hne : ∀ k ∈ kinds, k.toList ≠ [] := by decide
  have hinj : ∀ k ∈ kinds, ∀ k' ∈ kinds, k.toList.head? = k'.toList.head? → k = k' := by decide
  obtain ⟨c, cs, hc⟩ := List.exists_cons_of_ne_nil (hne kind hkind)
  obtain ⟨c', cs', hc'⟩ := List.exists_cons_of_ne_nil (hne kind' hkind')
  have hchars := congrArg (fun s => s.toList.head?) (outlineLine_inj h)
  refine hinj kind hkind kind' hkind' ?_
  simpa [hc, hc'] using hchars

/-- A text or a number is seen in the line of a node. -/
theorem scalar_eq {depth : ℕ} {label kind field text text' : String}
    (h : outlineLine depth label kind [(field, text)] =
      outlineLine depth label kind [(field, text')]) : text = text' := by
  have hjoin := outlineLine_inj h
  simpa [String.append_right_inj, String.join_cons, String.append_assoc] using hjoin

theorem outlineText_inj {s t : String} (h : outlineText s = outlineText t) : s = t := by
  simpa only [outlineText, String.append_left_inj, String.append_right_inj] using h

/-! ### Legible trees -/

/-- No name of an expression holds a newline, and no number has a sign. -/
def Expr.Legible : Expr → Prop
  | literal v _ => ∃ m, v = .signed false m
  | name id => IsLine id.name
  | binary _ l r _ => l.Legible ∧ r.Legible
  | unary _ e _ => e.Legible

/-- No name of a statement holds a newline, and no number has a sign. -/
def Statement.Legible : Statement → Prop
  | declaration n e _ => IsLine n ∧ e.Legible
  | assignment id e _ => IsLine id.name ∧ e.Legible
  | print e _ => e.Legible

/-- No name of a program holds a newline, and no number has a sign. -/
def Program.Legible (p : Program) : Prop := ∀ s ∈ p.statements, s.Legible

theorem Expr.Legible.names {e : Expr} (he : e.Legible) :
    ∀ m ∈ (Node.expr e).walk, ∀ s ∈ m.name?, IsLine s := by
  induction e with
  | literal v p => exact Node.names_of_held nofun nofun
  | name id => exact Node.names_of_held (fun _ hs => Option.some.inj hs ▸ he) nofun
  | binary op l r p ihl ihr =>
    exact Node.names_of_held nofun
      (List.forall_mem_cons.mpr ⟨ihl he.1, List.forall_mem_singleton.mpr (ihr he.2)⟩)
  | unary op e p ih => exact Node.names_of_held nofun (List.forall_mem_singleton.mpr (ih he))

theorem Statement.Legible.names {s : Statement} (hs : s.Legible) :
    ∀ m ∈ (Node.statement s).walk, ∀ name ∈ m.name?, IsLine name := by
  cases s with
  | declaration n e p =>
    exact Node.names_of_held (fun _ hn => Option.some.inj hn ▸ hs.1)
      (List.forall_mem_singleton.mpr hs.2.names)
  | assignment id e p =>
    have hname : (Expr.name id).Legible := hs.1
    exact Node.names_of_held nofun
      (List.forall_mem_cons.mpr ⟨hname.names, List.forall_mem_singleton.mpr hs.2.names⟩)
  | print e p =>
    have he : e.Legible := hs
    exact Node.names_of_held nofun (List.forall_mem_singleton.mpr he.names)

/-- The names of a legible program stand on lines. -/
theorem Program.Legible.names {p : Program} (hp : p.Legible) :
    ∀ m ∈ (Node.program p).walk, ∀ s ∈ m.name?, IsLine s := by
  refine Node.names_of_held nofun (List.forall_mem_map.mpr fun s hs => ?_)
  exact (hp s.1 (List.fst_mem_of_mem_zipIdx hs)).names

/-! ### The outline gives the tree -/

theorem BinaryOp.spelling_inj {o o' : BinaryOp} (h : o.spelling = o'.spelling) : o = o' := by
  rw [← Option.some_inj, ← ofSpelling?_spelling, h, ofSpelling?_spelling]

theorem UnaryOp.spelling_inj {o o' : UnaryOp} (h : o.spelling = o'.spelling) : o = o' := by
  rw [← Option.some_inj, ← ofSpelling?_spelling, h, ofSpelling?_spelling]

namespace Expr

/-- **The outline of an expression gives the expression**, and where it ends. -/
theorem outline_append_inj {e : Expr} (he : e.Legible) : ∀ {e' : Expr} {depth : ℕ} {label : String}
    {ls ls' : List String}, e'.Legible →
      e.outline depth label ++ ls = e'.outline depth label ++ ls' →
      e.sameTree e' = true ∧ ls = ls' := by
  induction e with
  | literal v p =>
    intro e' depth label ls ls' he' h
    cases e' with
    | literal v' p' =>
      obtain ⟨hline, hrest⟩ := List.cons.inj h
      obtain ⟨m, rfl⟩ := he
      obtain ⟨m', rfl⟩ := he'
      obtain rfl := outlineNumber_inj (scalar_eq hline)
      exact ⟨by simp [sameTree, Binary64.sameValue], hrest⟩
    | _ => exact absurd (kind_eq (List.cons.inj h).1 (by decide) (by decide)) (by decide)
  | name id =>
    intro e' depth label ls ls' he' h
    cases e' with
    | name id' =>
      obtain ⟨hline, hrest⟩ := List.cons.inj h
      have hname := outlineText_inj (scalar_eq hline)
      exact ⟨by simp [sameTree, hname], hrest⟩
    | _ => exact absurd (kind_eq (List.cons.inj h).1 (by decide) (by decide)) (by decide)
  | binary op l r p ihl ihr =>
    intro e' depth label ls ls' he' h
    cases e' with
    | binary op' l' r' p' =>
      obtain ⟨hline, hrest⟩ := List.cons.inj h
      obtain rfl := BinaryOp.spelling_inj (outlineText_inj (scalar_eq hline))
      change l.outline _ _ ++ r.outline _ _ ++ ls = l'.outline _ _ ++ r'.outline _ _ ++ ls' at hrest
      rw [List.append_assoc, List.append_assoc] at hrest
      obtain ⟨hl, hrest⟩ := ihl he.1 he'.1 hrest
      obtain ⟨hr, hls⟩ := ihr he.2 he'.2 hrest
      exact ⟨by simp [sameTree, hl, hr], hls⟩
    | _ => exact absurd (kind_eq (List.cons.inj h).1 (by decide) (by decide)) (by decide)
  | unary op e p ih =>
    intro e' depth label ls ls' he' h
    cases e' with
    | unary op' e₁ p' =>
      obtain ⟨hline, hrest⟩ := List.cons.inj h
      obtain rfl := UnaryOp.spelling_inj (outlineText_inj (scalar_eq hline))
      have he₁ : e₁.Legible := he'
      obtain ⟨hsame, hls⟩ := ih he he₁ hrest
      exact ⟨by simp [sameTree, hsame], hls⟩
    | _ => exact absurd (kind_eq (List.cons.inj h).1 (by decide) (by decide)) (by decide)

/-- The same expressions have the same outline. -/
theorem outline_congr : ∀ {e e' : Expr} (depth : ℕ) (label : String), e.sameTree e' = true →
    e.outline depth label = e'.outline depth label := by
  intro e
  induction e with
  | literal v p =>
    intro e' depth label h
    cases e' with
    | literal v' p' =>
      rw [sameTree] at h
      rw [outline, outline, outlineNumber_congr h]
    | _ => cases h
  | name id =>
    intro e' depth label h
    cases e' with
    | name id' => rw [outline, outline, eq_of_beq h]
    | _ => cases h
  | binary op l r p ihl ihr =>
    intro e' depth label h
    cases e' with
    | binary op' l' r' p' =>
      simp only [sameTree, Bool.and_eq_true, beq_iff_eq] at h
      obtain ⟨⟨rfl, hl⟩, hr⟩ := h
      rw [outline, outline, ihl _ _ hl, ihr _ _ hr]
    | _ => cases h
  | unary op e p ih =>
    intro e' depth label h
    cases e' with
    | unary op' e₁ p' =>
      simp only [sameTree, Bool.and_eq_true, beq_iff_eq] at h
      obtain ⟨rfl, hsame⟩ := h
      rw [outline, outline, ih _ _ hsame]
    | _ => cases h

end Expr

namespace Statement

/-- The outline of a statement gives the statement, and where it ends. -/
theorem outline_append_inj {s s' : Statement} (hs : s.Legible) (hs' : s'.Legible) {depth : ℕ}
    {label : String} {ls ls' : List String}
    (h : s.outline depth label ++ ls = s'.outline depth label ++ ls') :
    s.sameTree s' = true ∧ ls = ls' := by
  cases s with
  | declaration n e p =>
    cases s' with
    | declaration n' e' p' =>
      obtain ⟨hline, hrest⟩ := List.cons.inj h
      have hname := outlineText_inj (scalar_eq hline)
      obtain ⟨he, hls⟩ := Expr.outline_append_inj hs.2 hs'.2 hrest
      exact ⟨by simp [sameTree, hname, he], hls⟩
    | _ => exact absurd (kind_eq (List.cons.inj h).1 (by decide) (by decide)) (by decide)
  | assignment id e p =>
    cases s' with
    | assignment id' e' p' =>
      obtain ⟨-, hrest⟩ := List.cons.inj h
      change (Expr.name id).outline _ _ ++ e.outline _ _ ++ ls =
        (Expr.name id').outline _ _ ++ e'.outline _ _ ++ ls' at hrest
      rw [List.append_assoc, List.append_assoc] at hrest
      obtain ⟨hname, hrest⟩ :=
        Expr.outline_append_inj (show (Expr.name id).Legible from hs.1)
          (show (Expr.name id').Legible from hs'.1) hrest
      obtain ⟨he, hls⟩ := Expr.outline_append_inj hs.2 hs'.2 hrest
      exact ⟨by rw [sameTree, he, Bool.and_true]; exact hname, hls⟩
    | _ => exact absurd (kind_eq (List.cons.inj h).1 (by decide) (by decide)) (by decide)
  | print e p =>
    cases s' with
    | print e' p' =>
      obtain ⟨-, hrest⟩ := List.cons.inj h
      exact Expr.outline_append_inj (show e.Legible from hs) hs' hrest
    | _ => exact absurd (kind_eq (List.cons.inj h).1 (by decide) (by decide)) (by decide)

/-- The same statements have the same outline. -/
theorem outline_congr {s s' : Statement} (depth : ℕ) (label : String) (h : s.sameTree s' = true) :
    s.outline depth label = s'.outline depth label := by
  cases s with
  | declaration n e p =>
    cases s' with
    | declaration n' e' p' =>
      simp only [sameTree, Bool.and_eq_true, beq_iff_eq] at h
      obtain ⟨rfl, he⟩ := h
      rw [outline, outline, Expr.outline_congr _ _ he]
    | _ => cases h
  | assignment id e p =>
    cases s' with
    | assignment id' e' p' =>
      rw [sameTree, Bool.and_eq_true] at h
      have hname : (Expr.name id).sameTree (.name id') = true := h.1
      rw [outline, outline, Expr.outline_congr _ _ hname, Expr.outline_congr _ _ h.2]
    | _ => cases h
  | print e p =>
    cases s' with
    | print e' p' => rw [outline, outline, Expr.outline_congr _ _ h]
    | _ => cases h

theorem outline_ne_nil (s : Statement) (depth : ℕ) (label : String) :
    s.outline depth label ≠ [] := by
  cases s <;> exact List.cons_ne_nil _ _

end Statement

/-- The lines of statements, the first of them with a given number. -/
def statementsOutline (k : ℕ) (ss : List Statement) : List String :=
  (ss.zipIdx k).flatMap fun s => s.1.outline 1 (statementLabel s.2)

theorem statementsOutline_cons (k : ℕ) (s : Statement) (ss : List Statement) :
    statementsOutline k (s :: ss) =
      s.outline 1 (statementLabel k) ++ statementsOutline (k + 1) ss := rfl

theorem sameStatements_of_outline : ∀ {ss ss' : List Statement} {k : ℕ},
    (∀ s ∈ ss, s.Legible) → (∀ s ∈ ss', s.Legible) →
    statementsOutline k ss = statementsOutline k ss' → sameStatements ss ss' = true
  | [], [], _, _, _, _ => rfl
  | [], s' :: ss', k, _, _, h => by
    rw [statementsOutline_cons] at h
    exact absurd (List.append_eq_nil_iff.mp h.symm).1 (s'.outline_ne_nil _ _)
  | s :: ss, [], k, _, _, h => by
    rw [statementsOutline_cons] at h
    exact absurd (List.append_eq_nil_iff.mp h).1 (s.outline_ne_nil _ _)
  | s :: ss, s' :: ss', k, hss, hss', h => by
    rw [List.forall_mem_cons] at hss hss'
    rw [statementsOutline_cons, statementsOutline_cons] at h
    obtain ⟨hs, hrest⟩ := Statement.outline_append_inj hss.1 hss'.1 h
    rw [sameStatements, hs, sameStatements_of_outline hss.2 hss'.2 hrest]
    rfl

theorem statementsOutline_congr : ∀ {ss ss' : List Statement} (k : ℕ),
    sameStatements ss ss' = true → statementsOutline k ss = statementsOutline k ss'
  | [], [], _, _ => rfl
  | [], _ :: _, _, h => by cases h
  | _ :: _, [], _, h => by cases h
  | s :: ss, s' :: ss', k, h => by
    rw [sameStatements, Bool.and_eq_true] at h
    rw [statementsOutline_cons, statementsOutline_cons, Statement.outline_congr _ _ h.1,
      statementsOutline_congr _ h.2]

/-! ### Numbered lines -/

theorem numberedLine_inj {n : ℕ} {l l' : String} (h : numberedLine n l = numberedLine n l') :
    l = l' := by
  simpa only [numberedLine, String.append_right_inj] using h

theorem map_numberedLine_inj : ∀ {ls ls' : List String} {k : ℕ},
    (ls.zipIdx k).map (fun l => numberedLine (l.2 + 1) l.1) =
      (ls'.zipIdx k).map (fun l => numberedLine (l.2 + 1) l.1) → ls = ls'
  | [], [], _, _ => rfl
  | [], _ :: _, _, h => by cases h
  | _ :: _, [], _, h => by cases h
  | l :: ls, l' :: ls', k, h => by
    obtain ⟨hl, hls⟩ := List.cons.inj h
    have hline : l = l' := numberedLine_inj hl
    rw [hline, map_numberedLine_inj hls]

theorem numbered_inj {ls ls' : List String} (hne : ls ≠ []) (hne' : ls' ≠ [])
    (hls : ∀ l ∈ ls, IsLine l) (hls' : ∀ l ∈ ls', IsLine l) (h : numbered ls = numbered ls') :
    ls = ls' := by
  have hlines := splitOn_numbered hne hls
  rw [h, splitOn_numbered hne' hls'] at hlines
  have hinj : Function.Injective String.toList := fun _ _ => String.toList_inj.mp
  exact (map_numberedLine_inj (List.map_injective_iff.mpr hinj hlines)).symm

/-- **The pictures of two legible programs are equal if and only if the programs are**, but for
their places. -/
theorem Program.picture_eq_iff_of_legible {p q : Program} (hp : p.Legible) (hq : q.Legible) :
    p.picture = q.picture ↔ (Node.program p).sameTree (.program q) = true := by
  constructor
  · intro h
    have hlabel : IsLine "program" := by decide
    have houtline := numbered_inj (List.cons_ne_nil _ _) (List.cons_ne_nil _ _)
      (Node.isLine_of_mem_outlineAt hp.names hlabel)
      (Node.isLine_of_mem_outlineAt hq.names hlabel) h
    exact sameStatements_of_outline (k := 0) hp hq (List.cons.inj houtline).2
  · intro h
    have houtline : p.outline "program" = q.outline "program" :=
      congrArg (outlineLine 0 "program" "Program" [] :: ·) (statementsOutline_congr 0 h)
    exact congrArg numbered houtline

end AelSyntax
