import AelSyntax.Proofs.Tree.Lines
import AelSyntax.Tree.Record
import Mathlib.Data.List.Lex
import Mathlib.Tactic.Common

/-! # Traversals of a tree

A node of a tree has an address: the indices of the nodes to go down to, one for each level below
the root (`Node.at?`). A tour lists all nodes with their addresses in lexicographic order, which is
from the outside in and from left to right. The walk, the outline and the record of a tree are made
in three different ways, and each of them is a tour: a node comes first, and then the tours of the
nodes that it holds (`Node.walk_eq`, `Node.outlineAt_eq`, `Node.kindEntries_record_eq`).

* `Node.traversals_agree`: so the lines of an outline are the nodes of the walk, one by one, each
  line with the level, the field, the kind and the scalars of its node, and the kinds in the record
  are those of the walk. -/

namespace AelSyntax

/-! ### Kinds in a record -/

namespace Json

/-- The text that a value is. -/
def text? : Json → Option String
  | text s => some s
  | _ => none

mutual

/-- The texts under the key of a kind in a value, from the outside in and in the order of the
members. -/
def kindEntries : Json → List String
  | integer _ => []
  | real _ => []
  | text _ => []
  | list items => itemKindEntries items
  | record members => memberKindEntries members

/-- The texts under the key of a kind in the items of a list. -/
def itemKindEntries : List Json → List String
  | [] => []
  | item :: items => item.kindEntries ++ itemKindEntries items

/-- The texts under the key of a kind in the members of a record. -/
def memberKindEntries : List (String × Json) → List String
  | [] => []
  | (key, value) :: members =>
    (if key = "kind" then value.text?.toList else value.kindEntries) ++ memberKindEntries members

end

end Json

namespace Node

/-! ### Nodes in a tree -/

/-- The node at an address in a tree, with its field; the field of the root is given. -/
def at? (field : String) (n : Node) : List ℕ → Option (String × Node)
  | [] => some (field, n)
  | i :: address => n.held[i]?.bind fun h => h.2.at? h.1 address

/-- A line that shows a node: a number, two spaces for each level, and the field, the kind and the
scalars of the node. -/
def shown (number level : ℕ) (field : String) (n : Node) : List Char :=
  List.replicate (4 - (toString number).length) ' ' ++ (toString number).toList ++
    " | ".toList ++ List.replicate (2 * level) ' ' ++ field.toList ++ ": ".toList ++
    n.kind.toList ++ n.scalars.flatMap fun s => ' ' :: s.1.toList ++ '=' :: s.2.toList

/-! ### Kinds in the record of a node -/

open Json in
theorem kindEntries_record_eq (n : Node) :
    n.record.kindEntries = n.kind :: n.held.flatMap fun h => h.2.record.kindEntries := by
  rcases n with p | s | e
  · have hitems (ss : List Statement) : itemKindEntries (ss.map Statement.record) =
        ss.flatMap fun s => s.record.kindEntries := by
      induction ss with
      | nil => rfl
      | cons s ss ih => rw [List.map_cons, itemKindEntries, ih, List.flatMap_cons]
    rw [flatMap_held _ fun n => n.record.kindEntries]
    simp [hitems, children, List.flatMap_map, record, Program.record, nodeRecord, kindEntries,
      memberKindEntries, text?, kind]
  · cases s <;>
      simp [record, Statement.record, nodeRecord, kindEntries, memberKindEntries, text?, held, kind,
        Statement.kind]
  · cases e <;>
      simp [record, Expr.record, nodeRecord, kindEntries, memberKindEntries, text?, held, kind,
        Expr.kind]

theorem kindEntries_record (n : Node) : n.record.kindEntries = n.walk.map kind := by
  induction n using held_induction with
  | step n ih =>
    rw [kindEntries_record_eq, walk_eq, List.map_cons, List.map_flatMap, List.flatMap_congr ih]

/-! ### Tours -/

/-- The nodes of a tree with their addresses and their fields, as a walk and an outline come to
them. -/
structure IsTour (field : String) (n : Node) (visits : List (List ℕ × String × Node)) : Prop where
  mem_iff : ∀ v, v ∈ visits ↔ n.at? field v.1 = some v.2
  increasing : (visits.map Prod.fst).Pairwise (· < ·)
  walk_eq : n.walk = visits.map fun v => v.2.2
  outlineAt_eq : ∀ level, n.outlineAt level field =
    visits.map fun v => outlineLine (level + v.1.length) v.2.1 v.2.2.kind v.2.2.scalars

/-- A visit one level deeper, below the node with an index. -/
def visitBelow (i : ℕ) (v : List ℕ × String × Node) : List ℕ × String × Node := (i :: v.1, v.2)

/-- The visits below a node, one tour after the other. -/
def visitsBelow (hs : List (String × Node)) (tour : String × Node → List (List ℕ × String × Node)) :
    List (List ℕ × String × Node) :=
  hs.zipIdx.flatMap fun h => (tour h.1).map (visitBelow h.2)

section Below

variable {hs : List (String × Node)} {tour : String × Node → List (List ℕ × String × Node)}

theorem nil_not_mem_visitsBelow {m : String × Node} : ([], m) ∉ visitsBelow hs tour := by
  simp [visitsBelow, visitBelow]

theorem cons_mem_visitsBelow {i : ℕ} {address : List ℕ} {m : String × Node} :
    (i :: address, m) ∈ visitsBelow hs tour ↔ ∃ h, hs[i]? = some h ∧ (address, m) ∈ tour h := by
  rw [visitsBelow, List.mem_flatMap]
  constructor
  · rintro ⟨⟨h, j⟩, hh, hv⟩
    obtain ⟨⟨address', m'⟩, hw, heq⟩ := List.mem_map.mp hv
    cases heq
    exact ⟨h, List.mem_zipIdx_iff_getElem?.mp hh, hw⟩
  · rintro ⟨h, hh, hw⟩
    exact ⟨(h, i), List.mem_zipIdx_iff_getElem?.mpr hh, List.mem_map.mpr ⟨_, hw, rfl⟩⟩

theorem increasing_visitsBelow (htour : ∀ h ∈ hs, ((tour h).map Prod.fst).Pairwise (· < ·)) :
    ((visitsBelow hs tour).map Prod.fst).Pairwise (· < ·) := by
  have hindices : hs.zipIdx.Pairwise fun h h' => h.2 < h'.2 := by
    rw [← List.pairwise_map, List.zipIdx_map_snd]
    exact List.pairwise_lt_range' 1
  rw [visitsBelow, List.map_flatMap, List.pairwise_flatMap]
  refine ⟨fun h hh => ?_, hindices.imp fun hlt => ?_⟩
  · have hbelow := List.pairwise_map.mp (htour h.1 (List.fst_mem_of_mem_zipIdx hh))
    refine List.pairwise_map.mpr (List.pairwise_map.mpr (hbelow.imp fun hlt => ?_))
    exact List.cons_lt_cons_iff.mpr (.inr ⟨rfl, hlt⟩)
  · simp only [List.forall_mem_map]
    exact fun _ _ _ _ => List.cons_lt_cons_iff.mpr (.inl hlt)

/-- What is listed of the visits below a node is listed tour by tour, if it is a matter of a tour
and not of its index. -/
theorem map_visitsBelow {α : Type} {g : List ℕ × String × Node → α} {f : String × Node → List α}
    (hf : ∀ h ∈ hs, ∀ i, ((tour h).map fun v => g (visitBelow i v)) = f h) :
    (visitsBelow hs tour).map g = hs.flatMap f := by
  have hindices : hs.zipIdx.flatMap (fun h => f h.1) = hs.flatMap f := by
    rw [← List.flatMap_map, List.zipIdx_map_fst]
  rw [visitsBelow, List.map_flatMap, ← hindices]
  refine List.flatMap_congr fun h hh => ?_
  rw [List.map_map]
  exact hf h.1 (List.fst_mem_of_mem_zipIdx hh) h.2

end Below

/-- A node and then the tours of the nodes that it holds make up a tour. -/
theorem isTour_cons {field : String} {n : Node}
    {tour : String × Node → List (List ℕ × String × Node)}
    (htour : ∀ h ∈ n.held, IsTour h.1 h.2 (tour h)) :
    IsTour field n (([], field, n) :: visitsBelow n.held tour) := by
  constructor
  case mem_iff =>
    rintro ⟨address, m⟩
    cases address with
    | nil => simp [at?, nil_not_mem_visitsBelow, eq_comm]
    | cons i address =>
      have hne : (i :: address, m) ≠ ([], field, n) := by simp
      rw [List.mem_cons, or_iff_right hne, cons_mem_visitsBelow, at?, Option.bind_eq_some_iff]
      refine exists_congr fun h => and_congr_right fun hh => ?_
      exact (htour h (List.mem_of_getElem? hh)).mem_iff (address, m)
  case increasing =>
    refine List.pairwise_cons.mpr ⟨fun address haddress => ?_,
      increasing_visitsBelow fun h hh => (htour h hh).increasing⟩
    obtain ⟨⟨_ | ⟨i, address⟩, m⟩, hv, rfl⟩ := List.mem_map.mp haddress
    · exact absurd hv nil_not_mem_visitsBelow
    · exact List.nil_lt_cons _ _
  case walk_eq =>
    rw [walk_eq, List.map_cons]
    exact congrArg _ (map_visitsBelow fun h hh _ => (htour h hh).walk_eq.symm).symm
  case outlineAt_eq =>
    intro level
    rw [outlineAt_eq, List.map_cons]
    refine congrArg _ (map_visitsBelow fun h hh i => ?_).symm
    rw [(htour h hh).outlineAt_eq]
    refine List.map_congr_left fun v _ => ?_
    have hlevel : level + (v.1.length + 1) = level + 1 + v.1.length := by omega
    simp only [visitBelow, List.length_cons, hlevel]

theorem exists_isTour (n : Node) : ∀ field, ∃ visits, IsTour field n visits := by
  induction n using held_induction with
  | step n ih =>
    intro field
    choose! tour htour using ih
    exact ⟨_, isTour_cons fun h hh => htour h hh h.1⟩

/-! ### The main statement -/

theorem toList_numberedLine (number level : ℕ) (field : String) (n : Node) :
    (numberedLine number (outlineLine level field n.kind n.scalars)).toList =
      n.shown number level field := by
  have hscalars : (String.join (n.scalars.map fun s => " " ++ s.1 ++ "=" ++ s.2)).toList =
      n.scalars.flatMap fun s => ' ' :: s.1.toList ++ '=' :: s.2.toList := by
    rw [String.toList_join, List.flatMap_map]
    refine List.flatMap_congr fun s _ => ?_
    simp
  simp only [numberedLine, outlineLine, String.toList_append, hscalars, shown, String.toList_ofList,
    List.append_assoc]

/-- **The walk, the outline and the record of a tree agree**, whatever node it is of, if no name in
it and no label holds a newline. With the addresses in the tree listed in lexicographic order, the
walk comes to the nodes at the addresses one by one, and so do the lines of the outline: each of
them bears its number and shows the level, the field, the kind and the scalars of its node. The
kinds in the record are the kinds of the walk. -/
theorem traversals_agree (n : Node) (label : String) (hn : ∀ m ∈ n.walk, ∀ s ∈ m.name?, IsLine s)
    (hlabel : IsLine label) :
    ∃ addresses : List (List ℕ), addresses.Pairwise (· < ·) ∧
      (∀ address, address ∈ addresses ↔ (n.at? label address).isSome = true) ∧
      n.walk.length = addresses.length ∧
      ((n.picture label).toList.splitOn '\n').length = n.walk.length ∧
      (∀ k address field m, addresses[k]? = some address →
        n.at? label address = some (field, m) →
          n.walk[k]? = some m ∧
          ((n.picture label).toList.splitOn '\n')[k]? =
            some (m.shown (k + 1) address.length field)) ∧
      n.record.kindEntries = n.walk.map kind := by
  obtain ⟨visits, htour⟩ := n.exists_isTour label
  have houtline := htour.outlineAt_eq 0
  have hlines : ∀ l ∈ n.outlineAt 0 label, IsLine l := isLine_of_mem_outlineAt hn hlabel
  have hne : n.outlineAt 0 label ≠ [] := by
    rw [outlineAt_eq]
    exact List.cons_ne_nil _ _
  rw [picture, outline_eq_outlineAt, splitOn_numbered hne hlines, houtline, htour.walk_eq]
  refine ⟨visits.map Prod.fst, htour.increasing, fun address => ?_, by simp, by simp, ?_, ?_⟩
  · rw [List.mem_map, Option.isSome_iff_exists]
    constructor
    · rintro ⟨v, hv, rfl⟩
      exact ⟨v.2, (htour.mem_iff v).mp hv⟩
    · rintro ⟨held', hat⟩
      exact ⟨(address, held'), (htour.mem_iff _).mpr hat, rfl⟩
  · intro k address field m haddress hat
    rw [List.getElem?_map, Option.map_eq_some_iff] at haddress
    obtain ⟨v, hv, rfl⟩ := haddress
    -- the node at an address and its field are those of the visit to the address
    have hvisit : v.2 = (field, m) := by
      have hmem := (htour.mem_iff v).mp (List.mem_of_getElem? hv)
      exact Option.some.inj (hmem.symm.trans hat)
    have hwalk : v.2.2 = m := congrArg Prod.snd hvisit
    have hfield : v.2.1 = field := congrArg Prod.fst hvisit
    simp [hv, hwalk, hfield, toList_numberedLine]
  · rw [kindEntries_record, htour.walk_eq]

/-- The number in the declaration of a negation is found three levels below the program, in the
field of an operand. -/
theorem traversals_agree_of_negation :
    let literal := Expr.literal .nan ⟨1, 10⟩
    let n := program ⟨[.declaration "x" (.unary .negate literal ⟨1, 9⟩) ⟨1, 1⟩], ⟨1, 1⟩⟩
    (∀ m ∈ n.walk, ∀ s ∈ m.name?, IsLine s) ∧ IsLine "program" ∧
      ((n.picture "program").toList.splitOn '\n').length = 4 ∧
      (∃ k, n.walk[k]? = some (expr literal) ∧
        ((n.picture "program").toList.splitOn '\n')[k]? =
          some ((expr literal).shown (k + 1) 3 "operand")) ∧
      n.record.kindEntries =
        ["Program", "Declaration", "UnaryExpression", "LiteralExpression"] := by
  intro literal n
  have hn : ∀ m ∈ n.walk, ∀ s ∈ m.name?, IsLine s := by decide
  have hlabel : IsLine "program" := by decide
  obtain ⟨addresses, -, hmem, -, hlength, hline, hkinds⟩ := traversals_agree n "program" hn hlabel
  have hat : n.at? "program" [0, 0, 0] = some ("operand", expr literal) := by decide
  obtain ⟨k, hk⟩ := List.mem_iff_getElem?.mp ((hmem [0, 0, 0]).mpr (by rw [hat]; rfl))
  have hwalk : n.walk.length = 4 := rfl
  have hshown := hline k _ _ _ hk hat
  exact ⟨hn, hlabel, hlength.trans hwalk, ⟨k, hshown⟩, hkinds.trans rfl⟩

end Node

end AelSyntax
