import AelSyntax.Fault
import Mathlib.Tactic.Common

/-! # Trees and faults at other places

A map of places moves whatever keeps a place: tokens, trees and faults. Nothing else about them
changes, so a fault that is moved has the family and the description it had, and a tree that is
moved is the same but for its places (`Program.sameTree_moved`). Of the same tree twice this need
not be said, for a literal that is no number is not even the same as itself
(`Program.sameTree_self`). -/

namespace AelSyntax

/-- The place a number of lines further down. -/
def Place.down (k : Nat) (p : Place) : Place := ⟨p.line + k, p.column⟩

theorem Place.after_down (k : Nat) (p : Place) (c : Char) :
    (p.down k).after c = (p.after c).down k := by
  by_cases hc : c = '\n'
  · simp only [after, down, if_pos hc, Place.mk.injEq, and_true]
    omega
  · simp only [after, down, if_neg hc]

variable (f : Place → Place)

/-- A token that is moved. -/
def Token.moved (t : Token) : Token := ⟨t.kind, t.text, f t.place⟩

/-- A name that is moved. -/
def Identifier.moved (id : Identifier) : Identifier := ⟨id.name, f id.place⟩

/-- An expression that is moved, with all expressions inside it. -/
def Expr.moved : Expr → Expr
  | .literal v p => .literal v (f p)
  | .name id => .name (id.moved f)
  | .binary op l r p => .binary op l.moved r.moved (f p)
  | .unary op e p => .unary op e.moved (f p)

/-- A statement that is moved. -/
def Statement.moved : Statement → Statement
  | .declaration n e p => .declaration n (e.moved f) (f p)
  | .assignment id e p => .assignment (id.moved f) (e.moved f) (f p)
  | .print e p => .print (e.moved f) (f p)

/-- A program that is moved. -/
def Program.moved (p : Program) : Program := ⟨p.statements.map (Statement.moved f), f p.place⟩

/-- A refusal of a token that is moved. -/
def Refusal.moved : Refusal → Refusal
  | .unexpectedCharacter s => .unexpectedCharacter s
  | .expected what found => .expected what (found.moved f)
  | .nestedTooDeeply => .nestedTooDeeply

/-- A fault of a token that is moved. -/
def Fault.moved : Fault → Fault
  | .refused r p => .refused (r.moved f) (f p)
  | .malformed m => .malformed m

/-! ### What stays -/

@[simp] theorem Token.kind_moved (t : Token) : (t.moved f).kind = t.kind := rfl

@[simp] theorem Expr.place_moved (e : Expr) : (e.moved f).place = f e.place := by
  cases e <;> rfl

@[simp] theorem Refusal.family_moved (r : Refusal) : (r.moved f).family = r.family := by
  cases r <;> rfl

@[simp] theorem Refusal.description_moved (r : Refusal) :
    (r.moved f).description = r.description := by
  cases r <;> rfl

@[simp] theorem Expr.moved_id (e : Expr) : e.moved id = e := by
  induction e with
  | literal v p => rfl
  | name i => rfl
  | binary op l r p ihl ihr => rw [moved, ihl, ihr]; rfl
  | unary op e p ih => rw [moved, ih]; rfl

@[simp] theorem Statement.moved_id (s : Statement) : s.moved id = s := by
  cases s <;> rw [moved, Expr.moved_id] <;> rfl

@[simp] theorem Program.moved_id (p : Program) : p.moved id = p := by
  rw [moved, show Statement.moved id = id from funext Statement.moved_id, List.map_id]
  rfl

theorem Token.refusal_moved (t : Token) (what : String) :
    (t.moved f).refusal what = (t.refusal what).moved f := by
  rw [refusal, refusal, kind_moved]
  split_ifs <;> rfl

/-! ### Maps that agree -/

section Agreement

variable {f} {g : Place → Place}

theorem Expr.moved_congr {e : Expr} (h : ∀ e' ∈ e.walk, f e'.place = g e'.place) :
    e.moved f = e.moved g := by
  induction e with
  | literal v p => exact congrArg (literal v) (h _ List.mem_cons_self)
  | name id =>
    have hid : f id.place = g id.place := h _ List.mem_cons_self
    rw [moved, moved, Identifier.moved, hid]
    rfl
  | binary op l r p ihl ihr =>
    rw [walk, List.forall_mem_cons, List.forall_mem_append] at h
    rw [moved, moved, ihl h.2.1, ihr h.2.2, show f p = g p from h.1]
  | unary op e p ih =>
    rw [walk, List.forall_mem_cons] at h
    rw [moved, moved, ih h.2, show f p = g p from h.1]

theorem Statement.moved_congr {s : Statement}
    (h : ∀ n ∈ Node.ofStatement s, f n.place = g n.place) : s.moved f = s.moved g := by
  have hplace : f s.place = g s.place := h _ List.mem_cons_self
  have hexpr : ∀ e ∈ s.expressions, e.moved f = e.moved g := fun e he =>
    Expr.moved_congr fun e' he' => h (.expr e') (List.mem_cons_of_mem _
      (List.mem_map_of_mem (List.mem_flatMap.mpr ⟨e, he, he'⟩)))
  cases s with
  | declaration n e p =>
    rw [moved, moved, hexpr e List.mem_cons_self, show f p = g p from hplace]
  | assignment id e p =>
    rw [moved, moved, Expr.name.inj (hexpr (.name id) List.mem_cons_self),
      hexpr e (List.mem_cons_of_mem _ List.mem_cons_self), show f p = g p from hplace]
  | print e p => rw [moved, moved, hexpr e List.mem_cons_self, show f p = g p from hplace]

/-- Maps that agree where the nodes of a program are move it alike. -/
theorem Program.moved_congr {p : Program}
    (h : ∀ n ∈ (Node.program p).walk, f n.place = g n.place) : p.moved f = p.moved g := by
  have hplace : f p.place = g p.place := h _ List.mem_cons_self
  have hstatements : p.statements.map (Statement.moved f) = p.statements.map (Statement.moved g) :=
    List.map_congr_left fun s hs => Statement.moved_congr fun n hn =>
      h n (List.mem_cons_of_mem _ (List.mem_flatMap.mpr ⟨s, hs, hn⟩))
  rw [moved, moved, hplace, hstatements]

end Agreement

/-! ### Equality without places -/

section Equality

variable (g : Place → Place)

theorem Expr.sameTree_moved (e : Expr) :
    ∀ e' : Expr, (e.moved f).sameTree (e'.moved g) = e.sameTree e' := by
  induction e with
  | literal v p => intro e'; cases e' <;> rfl
  | name id => intro e'; cases e' <;> rfl
  | binary op l r p ihl ihr =>
    intro e'
    cases e' with
    | binary op' l' r' p' =>
      show (op == op' && (l.moved f).sameTree (l'.moved g) &&
        (r.moved f).sameTree (r'.moved g)) = _
      rw [ihl, ihr]
      rfl
    | _ => rfl
  | unary op e p ih =>
    intro e'
    cases e' with
    | unary op' e' p' =>
      show (op == op' && (e.moved f).sameTree (e'.moved g)) = _
      rw [ih]
      rfl
    | _ => rfl

theorem Statement.sameTree_moved (s s' : Statement) :
    (s.moved f).sameTree (s'.moved g) = s.sameTree s' := by
  cases s <;> cases s' <;>
    simp only [moved, Identifier.moved, sameTree, Expr.sameTree_moved]

theorem sameStatements_map_moved (ss : List Statement) : ∀ ss' : List Statement,
    sameStatements (ss.map (Statement.moved f)) (ss'.map (Statement.moved g)) =
      sameStatements ss ss' := by
  induction ss with
  | nil => intro ss'; cases ss' <;> rfl
  | cons s ss ih =>
    intro ss'
    cases ss' with
    | nil => rfl
    | cons s' ss' =>
      rw [List.map_cons, List.map_cons, sameStatements, sameStatements,
        Statement.sameTree_moved, ih]

/-- Programs that are moved are compared as they were. -/
theorem Program.sameTree_moved (p p' : Program) :
    (Node.program (p.moved f)).sameTree (.program (p'.moved g)) =
      (Node.program p).sameTree (.program p') :=
  sameStatements_map_moved f g p.statements p'.statements

end Equality

theorem Expr.sameTree_self (e : Expr) :
    e.sameTree e = true ↔ ∀ q, Expr.literal .nan q ∉ e.walk := by
  induction e with
  | literal v p =>
    cases v with
    | nan => simp [sameTree, walk, Binary64.sameValue]
    | signed negative m => simp [sameTree, walk, Binary64.sameValue]
  | name id => simp [sameTree, walk]
  | binary op l r p ihl ihr => simp [sameTree, walk, ihl, ihr, forall_and]
  | unary op e p ih => simp [sameTree, walk, ih]

theorem Statement.sameTree_self (s : Statement) :
    s.sameTree s = true ↔ ∀ q, Node.expr (.literal .nan q) ∉ Node.ofStatement s := by
  cases s <;> simp [sameTree, Node.ofStatement, expressions, Expr.sameTree_self, Expr.walk]

theorem sameStatements_self (ss : List Statement) :
    sameStatements ss ss = true ↔ ∀ s ∈ ss, s.sameTree s = true := by
  induction ss with
  | nil => simp [sameStatements]
  | cons s ss ih => simp [sameStatements, ih]

/-- A program is the same as itself if no literal in it is no number. -/
theorem Program.sameTree_self (p : Program) : (Node.program p).sameTree (.program p) = true ↔
    ∀ q, Node.expr (.literal .nan q) ∉ (Node.program p).walk := by
  have hself : (Node.program p).sameTree (.program p) = sameStatements p.statements p.statements :=
    rfl
  rw [hself, sameStatements_self]
  simp only [Statement.sameTree_self, Node.walk, List.mem_cons, reduceCtorEq, List.mem_flatMap,
    false_or, not_exists, not_and]
  exact ⟨fun h q s hs => h s hs q, fun h s hs q => h q s hs⟩

end AelSyntax
