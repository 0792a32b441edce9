import AelSyntax.Proofs.Number.Writing
import AelSyntax.Tree.Outline
import Mathlib.Data.List.Basic
import Mathlib.Tactic.Common

/-! # Nodes and their lines

A node holds its children, each of them in a field (`Node.held`, `Node.map_held`), and what is true
of a node as soon as it is true of those is true of every node (`Node.held_induction`). The walk and
the outline of a tree are made in the same way: a node comes first, and then what it holds
(`Node.walk_eq`, `Node.outlineAt_eq`).

In an outline a text stands between quotes, a whole number in all its digits, and any other number
as it is written elsewhere (`toList_outlineText`, `outlineNumber_of_isWhole`,
`outlineNumber_of_not_isWhole`). If no name in a tree holds a newline, the lines of its outline hold
none (`Node.isLine_of_mem_outlineAt`), so a picture can be cut into its lines again
(`splitOn_numbered`). -/

namespace AelSyntax

/-! ### Texts and numbers in an outline -/

/-- A text stands between quotes as it is. -/
theorem toList_outlineText (s : String) : (outlineText s).toList = '\'' :: s.toList ++ ['\''] := by
  simp [outlineText]

/-- A number is finite and has no fraction, and this is its absolute value. -/
def Binary64.IsWhole (v : Binary64) (n : ℕ) : Prop :=
  ∃ negative m, v = signed negative m ∧ m.isInfinite = false ∧ m.units = n * unitsInOne

theorem Binary64.whole?_eq_some {v : Binary64} {n : ℕ} : v.whole? = some n ↔ v.IsWhole n := by
  constructor
  · intro h
    cases v with
    | nan => cases h
    | signed negative m =>
      rw [whole?] at h
      split_ifs at h with hcond
      simp only [Bool.or_eq_true, bne_iff_ne, not_or, Bool.not_eq_true, ne_eq, not_not] at hcond
      obtain rfl := Option.some.inj h
      exact ⟨negative, m, rfl, hcond.1, (Nat.div_mul_cancel (Nat.dvd_of_mod_eq_zero hcond.2)).symm⟩
  · rintro ⟨negative, m, rfl, hm, hunits⟩
    simp [whole?, hm, hunits, unitsInOne_pos]

/-- A whole number is written in all its digits, with a minus sign if it is below zero. -/
theorem outlineNumber_of_isWhole {v : Binary64} {n : ℕ} (h : v.IsWhole n) :
    outlineNumber v = if v.isBelowZero then "-" ++ String.ofList (Nat.toDigits 10 n)
      else String.ofList (Nat.toDigits 10 n) := by
  rw [outlineNumber, Binary64.whole?_eq_some.mpr h, ← Nat.toString_eq_ofList_toDigits]

/-- Any other number is written as it is elsewhere. -/
theorem outlineNumber_of_not_isWhole {v : Binary64} (h : ∀ n, ¬ v.IsWhole n) :
    outlineNumber v = v.written := by
  have hwhole : v.whole? = none :=
    Option.eq_none_iff_forall_ne_some.mpr fun n hn => h n (Binary64.whole?_eq_some.mp hn)
  rw [outlineNumber, hwhole]

/-! ### Texts on one line -/

/-- A text stands on one line. -/
def IsLine (s : String) : Prop := '\n' ∉ s.toList

instance : DecidablePred IsLine := fun s => inferInstanceAs (Decidable ('\n' ∉ s.toList))

@[simp] theorem isLine_append {s t : String} : IsLine (s ++ t) ↔ IsLine s ∧ IsLine t := by
  simp [IsLine]

theorem isLine_join {ss : List String} : IsLine (String.join ss) ↔ ∀ s ∈ ss, IsLine s := by
  simp [IsLine, String.toList_join]

/-- Lines below each other are found again at the newlines. -/
theorem splitOn_intercalate_newline {ls : List String} (hne : ls ≠ []) (hls : ∀ l ∈ ls, IsLine l) :
    (String.intercalate "\n" ls).toList.splitOn '\n' = ls.map String.toList := by
  rw [String.toList_intercalate]
  exact List.splitOn_intercalate '\n' (List.forall_mem_map.mpr hls) (by simpa using hne)

theorem isLine_toString (n : ℕ) : IsLine (toString n) := by
  rw [IsLine, Nat.toString_eq_ofList_toDigits, String.toList_ofList]
  exact NumberStyle.newline_not_mem_digits Numeral.isDigit_of_mem_toDigits

theorem isLine_written (v : Binary64) : IsLine v.written := by
  cases v with
  | nan => decide
  | signed negative m =>
    have hm := NumberStyle.standard.newline_not_mem_magnitude m
    rw [IsLine, Binary64.written, String.toList_ofList]
    cases negative <;> simp [Binary64.withSign, hm]

theorem isLine_outlineNumber (v : Binary64) : IsLine (outlineNumber v) := by
  by_cases hv : ∃ n, v.IsWhole n
  · obtain ⟨n, hn⟩ := hv
    have hdigits : IsLine (String.ofList (Nat.toDigits 10 n)) :=
      Nat.toString_eq_ofList_toDigits ▸ isLine_toString n
    rw [outlineNumber_of_isWhole hn]
    split_ifs
    · exact isLine_append.mpr ⟨by decide, hdigits⟩
    · exact hdigits
  · rw [outlineNumber_of_not_isWhole (not_exists.mp hv)]
    exact isLine_written v

theorem isLine_outlineText {s : String} (h : IsLine s) : IsLine (outlineText s) := by
  simpa [IsLine, toList_outlineText] using h

theorem isLine_statementLabel (i : ℕ) : IsLine (statementLabel i) :=
  isLine_append.mpr ⟨isLine_append.mpr ⟨by decide, isLine_toString i⟩, by decide⟩

theorem isLine_outlineLine {depth : ℕ} {label kind : String} {scalars : List (String × String)}
    (hlabel : IsLine label) (hkind : IsLine kind)
    (hscalars : ∀ s ∈ scalars, IsLine s.1 ∧ IsLine s.2) :
    IsLine (outlineLine depth label kind scalars) := by
  have hspaces : IsLine (String.ofList (List.replicate (2 * depth) ' ')) := by
    simp [IsLine]
  have hjoin : IsLine (String.join (scalars.map fun s => " " ++ s.1 ++ "=" ++ s.2)) := by
    rw [isLine_join, List.forall_mem_map]
    intro s hs
    obtain ⟨hfield, htext⟩ := hscalars s hs
    simp only [isLine_append, hfield, htext, and_true]
    decide
  have hcolon : IsLine ": " := by decide
  simp only [outlineLine, isLine_append, hspaces, hlabel, hcolon, hkind, hjoin, and_self]

theorem BinaryOp.isLine_spelling (o : BinaryOp) : IsLine o.spelling := by cases o <;> decide

theorem UnaryOp.isLine_spelling (o : UnaryOp) : IsLine o.spelling := by cases o <;> decide

theorem isLine_numberedLine {n : ℕ} {line : String} (h : IsLine line) :
    IsLine (numberedLine n line) := by
  have hspaces (k : ℕ) : IsLine (String.ofList (List.replicate k ' ')) := by simp [IsLine]
  have hbar : IsLine " | " := by decide
  simp only [numberedLine, isLine_append, hspaces, isLine_toString, hbar, h, and_self]

/-- **A picture is cut into its lines at the newlines.** -/
theorem splitOn_numbered {ls : List String} (hne : ls ≠ []) (hls : ∀ l ∈ ls, IsLine l) :
    (numbered ls).toList.splitOn '\n' =
      (ls.zipIdx.map fun l => numberedLine (l.2 + 1) l.1).map String.toList := by
  refine splitOn_intercalate_newline (by simpa using hne) (List.forall_mem_map.mpr fun l hl => ?_)
  exact isLine_numberedLine (hls l.1 (List.fst_mem_of_mem_zipIdx hl))

namespace Node

/-! ### Nodes in a node -/

/-- The nodes that a node holds, from left to right, each with its field. -/
def held : Node → List (String × Node)
  | program p => p.statements.zipIdx.map fun s => (statementLabel s.2, statement s.1)
  | statement (.declaration _ e _) => [("initializer", expr e)]
  | statement (.assignment id e _) => [("target", expr (.name id)), ("source", expr e)]
  | statement (.print e _) => [("expression", expr e)]
  | expr (.binary _ l r _) => [("left", expr l), ("right", expr r)]
  | expr (.unary _ e _) => [("operand", expr e)]
  | expr _ => []

/-- The name that a node itself holds. -/
def name? : Node → Option String
  | statement (.declaration n _ _) => some n
  | expr (.name id) => some id.name
  | _ => none

/-- The fields of a node that hold texts and numbers, as an outline shows them. -/
def scalars : Node → List (String × String)
  | statement (.declaration n _ _) => [("name", outlineText n)]
  | expr (.literal v _) => [("value", outlineNumber v)]
  | expr (.name id) => [("name", outlineText id.name)]
  | expr (.binary op _ _ _) => [("op", outlineText op.spelling)]
  | expr (.unary op _ _) => [("op", outlineText op.spelling)]
  | _ => []

/-- The lines of a node in a field at a level. -/
def outlineAt (level : ℕ) (label : String) : Node → List String
  | program p => outlineLine level label "Program" [] ::
      p.statements.zipIdx.flatMap fun s => s.1.outline (level + 1) (statementLabel s.2)
  | statement s => s.outline level label
  | expr e => e.outline level label

theorem outline_eq_outlineAt (label : String) (n : Node) :
    n.outline label = n.outlineAt 0 label := by
  cases n <;> rfl

/-- What holds of a node if it holds of the nodes below it holds of every node. -/
theorem held_induction {motive : Node → Prop}
    (step : ∀ n : Node, (∀ h ∈ n.held, motive h.2) → motive n) : ∀ n, motive n := by
  have hexpr : ∀ e, motive (expr e) := by
    intro e
    induction e with
    | literal v p => exact step _ (by simp [held])
    | name id => exact step _ (by simp [held])
    | binary op l r p ihl ihr => exact step _ (by simp [held, ihl, ihr])
    | unary op e p ih => exact step _ (by simp [held, ih])
  have hstatement : ∀ s, motive (statement s) := by
    intro s
    cases s <;> exact step _ (by simp [held, hexpr])
  rintro (p | s | e)
  · refine step _ fun h hh => ?_
    obtain ⟨s, -, rfl⟩ := List.mem_map.mp hh
    exact hstatement s.1
  · exact hstatement s
  · exact hexpr e

/-! ### One node first, then those below it -/

/-- The nodes that a node holds are its children. -/
theorem map_held (n : Node) : n.held.map Prod.snd = n.children := by
  rcases n with p | s | e
  · rw [held, List.map_map]
    show p.statements.zipIdx.map (statement ∘ Prod.fst) = p.statements.map statement
    rw [← List.map_map, List.zipIdx_map_fst]
  · cases s <;> rfl
  · cases e <;> rfl

/-- What is listed of the nodes in a node does not depend on their fields. -/
theorem flatMap_held {α : Type} (n : Node) (g : Node → List α) :
    n.held.flatMap (fun h => g h.2) = n.children.flatMap g := by
  rw [← map_held, List.flatMap_map]

/-- A node comes first in its walk, and then the walks of its children. -/
theorem walk_eq_children (n : Node) : n.walk = n :: n.children.flatMap walk := by
  rcases n with p | s | e
  · rw [children, List.flatMap_map]
    rfl
  · cases s <;> simp [walk, ofStatement, Statement.expressions, children]
  · cases e <;> simp [walk, Expr.walk, children, Expr.operands]

theorem walk_eq (n : Node) : n.walk = n :: n.held.flatMap fun h => h.2.walk := by
  rw [flatMap_held, walk_eq_children]

theorem outlineAt_eq (level : ℕ) (label : String) (n : Node) : n.outlineAt level label =
    outlineLine level label n.kind n.scalars ::
      n.held.flatMap fun h => h.2.outlineAt (level + 1) h.1 := by
  rcases n with p | s | e
  · rw [held, List.flatMap_map]
    rfl
  · cases s <;> simp [outlineAt, Statement.outline, held, scalars, kind, Statement.kind]
  · cases e <;> simp [outlineAt, Expr.outline, held, scalars, kind, Expr.kind]

/-! ### Lines of nodes -/

theorem isLine_field (n : Node) : ∀ h ∈ n.held, IsLine h.1 := by
  rcases n with p | s | e
  · exact List.forall_mem_map.mpr fun s _ => isLine_statementLabel s.2
  · cases s <;> simp only [held, List.forall_mem_cons] <;> decide
  · cases e <;> simp only [held, List.forall_mem_cons] <;> decide

theorem isLine_kind (n : Node) : IsLine n.kind := by
  rcases n with p | s | e
  · exact (by decide : IsLine "Program")
  · cases s <;> simp only [kind, Statement.kind] <;> decide
  · cases e <;> simp only [kind, Expr.kind] <;> decide

theorem isLine_scalars {n : Node} (hn : ∀ s ∈ n.name?, IsLine s) :
    ∀ s ∈ n.scalars, IsLine s.1 ∧ IsLine s.2 := by
  have hname : IsLine "name" ∧ IsLine "value" ∧ IsLine "op" := by decide
  rcases n with p | s | e
  · simp [scalars]
  · cases s with
    | declaration name e p =>
      exact List.forall_mem_singleton.mpr ⟨hname.1, isLine_outlineText (hn name rfl)⟩
    | _ => simp [scalars]
  · cases e with
    | literal v p => exact List.forall_mem_singleton.mpr ⟨hname.2.1, isLine_outlineNumber v⟩
    | name id =>
      exact List.forall_mem_singleton.mpr ⟨hname.1, isLine_outlineText (hn id.name rfl)⟩
    | binary op l r p =>
      exact List.forall_mem_singleton.mpr ⟨hname.2.2, isLine_outlineText op.isLine_spelling⟩
    | unary op e p =>
      exact List.forall_mem_singleton.mpr ⟨hname.2.2, isLine_outlineText op.isLine_spelling⟩

/-- The names in a tree are that of its root and those in the nodes that it holds. -/
theorem names_of_held {n : Node} (hn : ∀ s ∈ n.name?, IsLine s)
    (hheld : ∀ h ∈ n.held, ∀ m ∈ h.2.walk, ∀ s ∈ m.name?, IsLine s) :
    ∀ m ∈ n.walk, ∀ s ∈ m.name?, IsLine s := by
  rw [walk_eq, List.forall_mem_cons, List.forall_mem_flatMap]
  exact ⟨hn, hheld⟩

/-- Names without newlines leave every line of an outline one line. -/
theorem isLine_of_mem_outlineAt {n : Node} : (∀ m ∈ n.walk, ∀ s ∈ m.name?, IsLine s) →
    ∀ {level : ℕ} {label : String}, IsLine label → ∀ l ∈ n.outlineAt level label, IsLine l := by
  induction n using held_induction with
  | step n ih =>
    intro hn level label hlabel
    rw [walk_eq, List.forall_mem_cons, List.forall_mem_flatMap] at hn
    rw [outlineAt_eq, List.forall_mem_cons, List.forall_mem_flatMap]
    exact ⟨isLine_outlineLine hlabel n.isLine_kind (isLine_scalars hn.1),
      fun h hh => ih h hh (hn.2 h hh) (n.isLine_field h hh)⟩

end Node

end AelSyntax
