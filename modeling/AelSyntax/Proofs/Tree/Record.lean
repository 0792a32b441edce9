import AelSyntax.Proofs.Json.Conformance
import AelSyntax.Proofs.Tree.Picture
import AelSyntax.Tree.Record
import Mathlib.Tactic.Common

/-! # Records determine trees

The kind in a record tells which node it is the record of, and the fields hold all that the node
has, so no two trees have the same record (`Program.record_inj`). Of two legible programs this is to
say that they are the same but for their places, and that the places of their nodes, listed from the
outside in, are equal too (`Program.eq_iff_sameTree`): the lists are cut where the trees say, the
node at the root first and then each operand (`Expr.eq_of_sameTree`). No key stands twice in
a record, and its scalars are places and the values of literals, so it is one of the standard
grammar if the literals are finite (`Program.keysDiffer_record`, `Program.isScalar_record_iff`). -/

namespace AelSyntax

/-! ### Records -/

theorem nodeRecord_inj {kind kind' : String} {fields fields' : List (String × Json)} {p p' : Place}
    (h : nodeRecord kind fields p = nodeRecord kind' fields' p') :
    kind = kind' ∧ fields = fields' ∧ p = p' := by
  obtain ⟨hkind, hrest⟩ := List.cons.inj (Json.record.inj h)
  obtain ⟨hfields, hplace⟩ := List.append_inj' hrest rfl
  obtain ⟨line, column⟩ := p
  obtain ⟨line', column'⟩ := p'
  refine ⟨?_, hfields, ?_⟩
  · simpa using hkind
  · simpa using hplace

theorem Expr.record_inj {e : Expr} : ∀ {e' : Expr}, e.record = e'.record → e = e' := by
  induction e with
  | literal v p =>
    intro e' h
    cases e' with
    | literal v' p' =>
      obtain ⟨-, hfields, rfl⟩ := nodeRecord_inj h
      cases hfields
      rfl
    | _ => exact absurd (nodeRecord_inj h).1 (by decide)
  | name id =>
    intro e' h
    cases e' with
    | name id' =>
      obtain ⟨name, place⟩ := id
      obtain ⟨name', place'⟩ := id'
      obtain ⟨-, hfields, hplace⟩ := nodeRecord_inj h
      cases hfields
      cases hplace
      rfl
    | _ => exact absurd (nodeRecord_inj h).1 (by decide)
  | binary op l r p ihl ihr =>
    intro e' h
    cases e' with
    | binary op' l' r' p' =>
      obtain ⟨-, hfields, rfl⟩ := nodeRecord_inj h
      simp only [List.cons.injEq, Prod.mk.injEq, Json.text.injEq, true_and, and_true] at hfields
      rw [BinaryOp.spelling_inj hfields.1, ihl hfields.2.1, ihr hfields.2.2]
    | _ => exact absurd (nodeRecord_inj h).1 (by decide)
  | unary op e p ih =>
    intro e' h
    cases e' with
    | unary op' e₁ p' =>
      obtain ⟨-, hfields, rfl⟩ := nodeRecord_inj h
      simp only [List.cons.injEq, Prod.mk.injEq, Json.text.injEq, true_and, and_true] at hfields
      rw [UnaryOp.spelling_inj hfields.1, ih hfields.2]
    | _ => exact absurd (nodeRecord_inj h).1 (by decide)

theorem Statement.record_inj {s s' : Statement} (h : s.record = s'.record) : s = s' := by
  cases s with
  | declaration n e p =>
    cases s' with
    | declaration n' e' p' =>
      obtain ⟨-, hfields, rfl⟩ := nodeRecord_inj h
      simp only [List.cons.injEq, Prod.mk.injEq, Json.text.injEq, true_and, and_true] at hfields
      rw [hfields.1, Expr.record_inj hfields.2]
    | _ => exact absurd (nodeRecord_inj h).1 (by decide)
  | assignment id e p =>
    cases s' with
    | assignment id' e' p' =>
      obtain ⟨-, hfields, rfl⟩ := nodeRecord_inj h
      simp only [List.cons.injEq, Prod.mk.injEq, true_and, and_true] at hfields
      rw [Expr.name.inj (Expr.record_inj hfields.1), Expr.record_inj hfields.2]
    | _ => exact absurd (nodeRecord_inj h).1 (by decide)
  | print e p =>
    cases s' with
    | print e' p' =>
      obtain ⟨-, hfields, rfl⟩ := nodeRecord_inj h
      simp only [List.cons.injEq, Prod.mk.injEq, true_and, and_true] at hfields
      rw [Expr.record_inj hfields]
    | _ => exact absurd (nodeRecord_inj h).1 (by decide)

/-- **No two programs have the same record.** -/
theorem Program.record_inj {p q : Program} (h : p.record = q.record) : p = q := by
  obtain ⟨ss, place⟩ := p
  obtain ⟨ss', place'⟩ := q
  obtain ⟨-, hfields, hplace⟩ := nodeRecord_inj h
  simp only [List.cons.injEq, Prod.mk.injEq, Json.list.injEq, true_and, and_true] at hfields
  have hstatements : ss = ss' :=
    List.map_injective_iff.mpr (fun _ _ => Statement.record_inj) hfields
  rw [hstatements, show place = place' from hplace]

/-! ### Equality with places -/

theorem Binary64.eq_of_sameValue {m m' : Magnitude}
    (h : (signed false m).sameValue (signed false m') = true) : m = m' := by
  simpa [sameValue] using h

/-- Expressions that are the same but for their places are equal if the places of their parts are,
and the lists of places end together. -/
theorem Expr.eq_of_sameTree {e : Expr} (he : e.Legible) : ∀ {e' : Expr} {ps ps' : List Place},
    e'.Legible → e.sameTree e' = true →
      e.walk.map place ++ ps = e'.walk.map place ++ ps' → e = e' ∧ ps = ps' := by
  induction e with
  | literal v p =>
    intro e' ps ps' he' hsame hplaces
    cases e' with
    | literal v' p' =>
      obtain ⟨m, rfl⟩ := he
      obtain ⟨m', rfl⟩ := he'
      obtain ⟨hplace, hrest⟩ := List.cons.inj hplaces
      have hp : p = p' := hplace
      obtain rfl := Binary64.eq_of_sameValue hsame
      exact ⟨by rw [hp], hrest⟩
    | _ => cases hsame
  | name id =>
    intro e' ps ps' he' hsame hplaces
    cases e' with
    | name id' =>
      obtain ⟨name, p⟩ := id
      obtain ⟨name', p'⟩ := id'
      obtain ⟨hplace, hrest⟩ := List.cons.inj hplaces
      have hp : p = p' := hplace
      have hname : name = name' := eq_of_beq hsame
      exact ⟨by rw [hp, hname], hrest⟩
    | _ => cases hsame
  | binary op l r p ihl ihr =>
    intro e' ps ps' he' hsame hplaces
    cases e' with
    | binary op' l' r' p' =>
      simp only [sameTree, Bool.and_eq_true, beq_iff_eq] at hsame
      obtain ⟨⟨rfl, hl⟩, hr⟩ := hsame
      obtain ⟨hplace, hrest⟩ := List.cons.inj hplaces
      have hp : p = p' := hplace
      change (l.walk ++ r.walk).map place ++ ps = (l'.walk ++ r'.walk).map place ++ ps' at hrest
      rw [List.map_append, List.map_append, List.append_assoc, List.append_assoc] at hrest
      obtain ⟨heql, hrest⟩ := ihl he.1 he'.1 hl hrest
      obtain ⟨heqr, hrest⟩ := ihr he.2 he'.2 hr hrest
      exact ⟨by rw [hp, heql, heqr], hrest⟩
    | _ => cases hsame
  | unary op e p ih =>
    intro e' ps ps' he' hsame hplaces
    cases e' with
    | unary op' e₁ p' =>
      simp only [sameTree, Bool.and_eq_true, beq_iff_eq] at hsame
      obtain ⟨rfl, hsame⟩ := hsame
      obtain ⟨hplace, hrest⟩ := List.cons.inj hplaces
      have hp : p = p' := hplace
      have he₁ : e₁.Legible := he'
      obtain ⟨heq, hrest⟩ := ih he he₁ hsame hrest
      exact ⟨by rw [hp, heq], hrest⟩
    | _ => cases hsame

/-- Statements that are the same but for their places are equal if the places of their nodes are. -/
theorem Statement.eq_of_sameTree {s s' : Statement} (hs : s.Legible) (hs' : s'.Legible)
    (hsame : s.sameTree s' = true) {ps ps' : List Place}
    (hplaces : (Node.ofStatement s).map Node.place ++ ps =
      (Node.ofStatement s').map Node.place ++ ps') : s = s' ∧ ps = ps' := by
  have hexpr (es : List Expr) : (es.map Node.expr).map Node.place = es.map Expr.place :=
    List.map_map
  rw [Node.ofStatement, Node.ofStatement, List.map_cons, List.map_cons, hexpr, hexpr] at hplaces
  obtain ⟨hplace, hrest⟩ := List.cons.inj hplaces
  cases s with
  | declaration n e p =>
    cases s' with
    | declaration n' e' p' =>
      simp only [sameTree, Bool.and_eq_true, beq_iff_eq] at hsame
      have hp : p = p' := hplace
      simp only [expressions, List.flatMap_singleton] at hrest
      obtain ⟨he, hrest⟩ := Expr.eq_of_sameTree hs.2 hs'.2 hsame.2 hrest
      exact ⟨by rw [hsame.1, he, hp], hrest⟩
    | _ => cases hsame
  | assignment id e p =>
    cases s' with
    | assignment id' e' p' =>
      rw [sameTree, Bool.and_eq_true] at hsame
      have hp : p = p' := hplace
      simp only [expressions, List.flatMap_cons, List.flatMap_nil, List.append_nil,
        List.map_append] at hrest
      obtain ⟨hname, hrest⟩ :=
        Expr.eq_of_sameTree (show (Expr.name id).Legible from hs.1)
          (show (Expr.name id').Legible from hs'.1) hsame.1 hrest
      obtain ⟨he, hrest⟩ := Expr.eq_of_sameTree hs.2 hs'.2 hsame.2 hrest
      exact ⟨by rw [Expr.name.inj hname, he, hp], hrest⟩
    | _ => cases hsame
  | print e p =>
    cases s' with
    | print e' p' =>
      have hp : p = p' := hplace
      simp only [expressions, List.flatMap_singleton] at hrest
      obtain ⟨he, hrest⟩ :=
        Expr.eq_of_sameTree (show e.Legible from hs) (show e'.Legible from hs') hsame hrest
      exact ⟨by rw [he, hp], hrest⟩
    | _ => cases hsame

theorem eq_of_sameStatements : ∀ {ss ss' : List Statement}, (∀ s ∈ ss, s.Legible) →
    (∀ s ∈ ss', s.Legible) → sameStatements ss ss' = true →
      (ss.flatMap Node.ofStatement).map Node.place = (ss'.flatMap Node.ofStatement).map Node.place →
        ss = ss'
  | [], [], _, _, _, _ => rfl
  | [], _ :: _, _, _, hsame, _ => by cases hsame
  | _ :: _, [], _, _, hsame, _ => by cases hsame
  | s :: ss, s' :: ss', hs, hs', hsame, hplaces => by
    rw [List.forall_mem_cons] at hs hs'
    rw [sameStatements, Bool.and_eq_true] at hsame
    rw [List.flatMap_cons, List.flatMap_cons, List.map_append, List.map_append] at hplaces
    obtain ⟨hfirst, hrest⟩ := Statement.eq_of_sameTree hs.1 hs'.1 hsame.1 hplaces
    rw [hfirst, eq_of_sameStatements hs.2 hs'.2 hsame.2 hrest]

/-- **Two legible programs are equal if and only if they are the same but for their places and the
places of their nodes are equal too.** -/
theorem Program.eq_iff_sameTree {p q : Program} (hp : p.Legible) (hq : q.Legible) :
    p = q ↔ (Node.program p).sameTree (.program q) = true ∧
      (Node.program p).walk.map Node.place = (Node.program q).walk.map Node.place := by
  constructor
  · rintro rfl
    exact ⟨(picture_eq_iff_of_legible hp hp).mp rfl, rfl⟩
  · rintro ⟨hsame, hplaces⟩
    obtain ⟨ss, place⟩ := p
    obtain ⟨ss', place'⟩ := q
    obtain ⟨hplace, hrest⟩ := List.cons.inj hplaces
    have hp' : place = place' := hplace
    have hss : ss = ss' := eq_of_sameStatements hp hq hsame hrest
    rw [hp', hss]

open Json

/-! ### Keys -/

theorem Expr.keysDiffer_record (e : Expr) : e.record.KeysDiffer := by
  induction e with
  | literal v p => simp [record, nodeRecord, KeysDiffer, MemberKeysDiffer]
  | name id => simp [record, nodeRecord, KeysDiffer, MemberKeysDiffer]
  | binary op l r p ihl ihr => simp [record, nodeRecord, KeysDiffer, MemberKeysDiffer, ihl, ihr]
  | unary op e p ih => simp [record, nodeRecord, KeysDiffer, MemberKeysDiffer, ih]

theorem Statement.keysDiffer_record (s : Statement) : s.record.KeysDiffer := by
  cases s <;>
    simp [record, nodeRecord, KeysDiffer, MemberKeysDiffer, Expr.keysDiffer_record]

/-- **No record in the record of a program has a key twice.** -/
theorem Program.keysDiffer_record (p : Program) : p.record.KeysDiffer := by
  have hstatements : ItemKeysDiffer (p.statements.map Statement.record) :=
    itemKeysDiffer_iff.mpr (List.forall_mem_map.mpr fun s _ => s.keysDiffer_record)
  simp [record, nodeRecord, KeysDiffer, MemberKeysDiffer, hstatements]

/-! ### Numbers -/

variable {names : List String}

/-- The kind and the place of a record are in any grammar. -/
theorem isScalar_nodeRecord_iff {kind : String} {fields : List (String × Json)} {p : Place} :
    (∀ cs ∈ (nodeRecord kind fields p).term.scalars, IsScalar names cs) ↔
      ∀ cs ∈ memberScalars (memberTerms fields), IsScalar names cs := by
  have hplace : ∀ cs ∈ memberScalars (memberTerms
      [("line", integer p.line), ("col", integer p.column)]), IsScalar names cs :=
    List.forall_mem_cons.mpr ⟨isScalar_toString names p.line,
      List.forall_mem_singleton.mpr (isScalar_toString names p.column)⟩
  rw [nodeRecord, term, Term.scalars, memberTerms_append, memberScalars_append,
    List.forall_mem_append, and_iff_left hplace]
  rfl

theorem Expr.isScalar_record_iff (e : Expr) :
    (∀ cs ∈ e.record.term.scalars, IsScalar names cs) ↔
      ∀ v p, literal v p ∈ e.walk → IsScalar names (writtenReal v) := by
  induction e with
  | literal v p =>
    rw [record, isScalar_nodeRecord_iff]
    simp [memberTerms, memberScalars, term, Term.scalars, walk]
  | name id =>
    rw [record, isScalar_nodeRecord_iff]
    simp [memberTerms, memberScalars, term, Term.scalars, walk]
  | binary op l r p ihl ihr =>
    rw [record, isScalar_nodeRecord_iff]
    simp [memberTerms, memberScalars, term, Term.scalars, walk, or_imp, forall_and, ihl, ihr]
  | unary op e p ih =>
    rw [record, isScalar_nodeRecord_iff]
    simp [memberTerms, memberScalars, term, Term.scalars, walk, ih]

theorem Statement.isScalar_record_iff (s : Statement) :
    (∀ cs ∈ s.record.term.scalars, IsScalar names cs) ↔
      ∀ v p, Node.expr (.literal v p) ∈ Node.ofStatement s → IsScalar names (writtenReal v) := by
  cases s <;>
    simp [record, isScalar_nodeRecord_iff, memberTerms, memberScalars, term, Term.scalars,
      Node.ofStatement, expressions, Expr.isScalar_record_iff, Expr.walk, or_imp, forall_and]

theorem isScalar_statementRecords_iff (ss : List Statement) :
    (∀ cs ∈ itemScalars (itemTerms (ss.map Statement.record)), IsScalar names cs) ↔
      ∀ s ∈ ss, ∀ v p, Node.expr (.literal v p) ∈ Node.ofStatement s →
        IsScalar names (writtenReal v) := by
  induction ss with
  | nil => simp [itemTerms, itemScalars]
  | cons s ss ih =>
    rw [List.map_cons, itemTerms, itemScalars, List.forall_mem_append, List.forall_mem_cons, ih,
      s.isScalar_record_iff]

/-- **The record of a program is of the grammar with some names** if and only if what is written for
its literals is. -/
theorem Program.isScalar_record_iff (p : Program) :
    (∀ cs ∈ p.record.term.scalars, IsScalar names cs) ↔
      ∀ v q, Node.expr (.literal v q) ∈ (Node.program p).walk → IsScalar names (writtenReal v) := by
  rw [record, isScalar_nodeRecord_iff]
  simp only [memberTerms, memberScalars, term, Term.scalars, List.append_nil,
    isScalar_statementRecords_iff, Node.walk, List.mem_cons, reduceCtorEq, false_or,
    List.mem_flatMap]
  constructor
  · rintro h v q ⟨s, hs, hmem⟩
    exact h s hs v q hmem
  · intro h s hs v q hmem
    exact h v q ⟨s, hs, hmem⟩

end AelSyntax
