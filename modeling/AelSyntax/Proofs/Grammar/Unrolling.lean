import AelSyntax.Proofs.Grammar.Congruence
import AelSyntax.Proofs.Grammar.Lookahead
import Mathlib.Tactic.Common

/-! # Loops and levels without bounds

The loops of the rules count the tokens that are left, and a power counts the levels that are left,
but nothing ever ends because of a count. A loop that is only told by the next token whether it goes
on comes to an end by itself, since every turn of it passes a token (`Rule.Loops`), and the rules are
these loops: `Rule.loopsAfter_chain`, `Rule.loopsAfter_program`. A power is one of the next level
wherever the limit has not been reached, and refused everywhere else: `Rule.power_eq`. -/

namespace AelSyntax

namespace Rule

/-! ### Loops -/

/-- A loop without a bound, from a value and a cursor to its end: as long as the kind of the token at
the cursor asks for it, one more step is taken, and a step that fails is the end. -/
inductive Loops {α : Type} (goesOn : Kind → Prop) (step : α → Rule α) :
    α → Cursor → EStateM.Result Fault Cursor α → Prop
  | done {a : α} {c : Cursor} (h : ¬ goesOn c.current.kind) : Loops goesOn step a c (.ok a c)
  | fails {a : α} {c c' : Cursor} {e : Fault} (h : goesOn c.current.kind)
    (hs : step a c = .error e c') : Loops goesOn step a c (.error e c')
  | again {a a' : α} {c c' : Cursor} {res : EStateM.Result Fault Cursor α}
    (h : goesOn c.current.kind) (hs : step a c = .ok a' c') (hl : Loops goesOn step a' c' res) :
    Loops goesOn step a c res

/-- A rule begins as another one does and then goes through a loop. -/
def LoopsAfter {α : Type} (r first : Rule α) (goesOn : Kind → Prop) (step : α → Rule α) : Prop :=
  ∀ c : Cursor, match first c with
    | .ok a c' => Loops goesOn step a c' (r c)
    | .error e c' => r c = .error e c'

/-- One more operator with its operand behind an expression. -/
def link (operand : Rule Expr) (left : Expr) : Rule Expr := do
  let op ← advance
  let right ← operand
  build (Expr.ofBinary op.text left right left.place)

/-- A program of one statement. -/
def opening (stmt : Rule Statement) : Rule Program := do
  let first ← current
  let s ← stmt
  pure ⟨[s], first.place⟩

/-- One more statement behind a program. -/
def extended (stmt : Rule Statement) (p : Program) : Rule Program := do
  let s ← stmt
  pure ⟨p.statements ++ [s], p.place⟩

variable {kinds : List Kind} {operand : Rule Expr} {stmt : Rule Statement} {c c' : Cursor}

theorem kind_current_of_length_le (h : c.rest.length ≤ 0) : c.current.kind = .finish := by
  rw [c.kind_current, List.length_eq_zero_iff.mp (Nat.le_zero.mp h)]
  rfl

theorem rest_ne_nil_of_kind (h : c.current.kind ≠ .finish) : c.rest ≠ [] := by
  rw [Cursor.rest_of_kind_ne_finish h]
  exact List.cons_ne_nil _ _

theorem advances_link (h : operand.Shrinks) (left : Expr) : (link operand left).Advances :=
  advances_advance_bind fun _ => h.bind fun _ => shrinks_build _

/-- A chain with a bound that leaves room for all tokens is a chain without a bound. -/
theorem loops_chainWithin (hkinds : .finish ∉ kinds) (h : operand.Shrinks) (n : Nat) :
    ∀ (left : Expr) {c : Cursor}, c.rest.length ≤ n →
      Loops (· ∈ kinds) (link operand) left c (chainWithin kinds operand n left c) := by
  induction n with
  | zero =>
    intro left c hn
    have hk : c.current.kind ∉ kinds := by
      rw [kind_current_of_length_le hn]
      exact hkinds
    exact .done hk
  | succ n ih =>
    intro left c hn
    by_cases hk : c.current.kind ∈ kinds
    · have hsteps : chainWithin kinds operand (n + 1) left c =
          (link operand left >>= chainWithin kinds operand n) c := by
        rw [chainWithin, current_bind, if_pos hk]
        simp only [link, bind_assoc]
      rw [hsteps]
      have hrest : c.rest ≠ [] := rest_ne_nil_of_kind fun hfinish => hkinds (hfinish ▸ hk)
      cases hs : link operand left c with
      | ok joined c₁ =>
        -- a turn passes the operator at least, so the smaller bound has room for what is left
        have hlt := advances_link h left hs hrest
        rw [bind_of_ok hs]
        exact .again hk hs (ih joined (by omega))
      | error e c₁ =>
        rw [bind_of_error hs]
        exact .fails hk hs
    · rw [chainWithin_of_not_mem hk]
      exact .done hk

/-- **A chain is a loop** behind its first operand. -/
theorem loopsAfter_chain (hkinds : .finish ∉ kinds) (h : operand.Shrinks) :
    (chain kinds operand).LoopsAfter operand (· ∈ kinds) (link operand) := by
  intro c
  cases hs : operand c with
  | ok left c₁ =>
    have hchain : chain kinds operand c = chainWithin kinds operand c₁.rest.length left c₁ := by
      rw [chain, bind_of_ok hs, remaining_bind]
    rw [hchain]
    exact loops_chainWithin hkinds h _ left le_rfl
  | error e c₁ => exact bind_of_error hs

/-- Behind a program, statements up to the end of the text are read in a loop. -/
theorem loops_statementsWithin (h : stmt.Advances) (n : Nat) : ∀ (p : Program) {c : Cursor},
    c.rest.length ≤ n → Loops (· ≠ .finish) (extended stmt) p c
      ((statementsWithin stmt n >>= fun ss => pure ⟨p.statements ++ ss, p.place⟩) c) := by
  have hdone (p : Program) {n : Nat} {c : Cursor} (hk : c.current.kind = .finish) :
      Loops (· ≠ .finish) (extended stmt) p c
        ((statementsWithin stmt n >>= fun ss => pure ⟨p.statements ++ ss, p.place⟩) c) := by
    rw [bind_of_ok (statementsWithin_of_finish hk), List.append_nil]
    exact .done (not_not_intro hk)
  induction n with
  | zero => exact fun p c hn => hdone p (kind_current_of_length_le hn)
  | succ n ih =>
    intro p c hn
    by_cases hk : c.current.kind = .finish
    · exact hdone p hk
    · rw [bind_of_eq (statementsWithin_of_ne hk)]
      cases hs : stmt c with
      | ok s c₁ =>
        have hlt := h hs (rest_ne_nil_of_kind hk)
        have hmore := ih ⟨p.statements ++ [s], p.place⟩ (c := c₁) (by omega)
        simp only [List.append_assoc, List.singleton_append] at hmore
        simp only [bind_assoc, pure_bind]
        rw [bind_of_ok hs]
        exact .again hk (bind_of_ok hs) hmore
      | error e c₁ =>
        simp only [bind_assoc]
        rw [bind_of_error hs]
        exact .fails hk (bind_of_error hs)

/-- **A program is a loop** behind its first statement. -/
theorem loopsAfter_program (h : stmt.Advances) :
    (program stmt).LoopsAfter (opening stmt) (· ≠ .finish) (extended stmt) := by
  intro c
  rw [opening, current_bind, program_eq]
  cases hs : stmt c with
  | ok s c₁ =>
    rw [bind_of_ok hs, bind_of_ok hs, remaining_bind]
    exact loops_statementsWithin h _ ⟨[s], c.current.place⟩ le_rfl
  | error e c₁ =>
    rw [bind_of_error hs, bind_of_error hs]

/-! ### Levels -/

/-- Two rules do the same at a depth, and they keep it. -/
def sameAt (depth : Nat) : Congruence where
  rel r r' := (∀ c, (endOf (r c)).depth = c.depth) ∧ ∀ c, c.depth = depth → r c = r' c
  pure a := ⟨fun _ => rfl, fun _ _ => rfl⟩
  bind {α β r r' g g'} hr hg := by
    refine ⟨fun c => ?_, fun c hc => ?_⟩
    · have hdepth := hr.1 c
      cases hrun : r c with
      | ok a c₁ =>
        rw [hrun] at hdepth
        rw [bind_of_ok hrun]
        exact ((hg a).1 c₁).trans hdepth
      | error e c₁ =>
        rw [hrun] at hdepth
        rw [bind_of_error hrun]
        exact hdepth
    · have hdepth := hr.1 c
      have hrun' := hr.2 c hc
      cases hrun : r c with
      | ok a c₁ =>
        rw [hrun] at hdepth hrun'
        rw [bind_of_ok hrun, bind_of_ok hrun'.symm]
        exact (hg a).2 c₁ (hdepth.trans hc)
      | error e c₁ =>
        rw [hrun] at hrun'
        rw [bind_of_error hrun, bind_of_error hrun'.symm]
  current := ⟨fun _ => rfl, fun _ _ => rfl⟩
  advance := ⟨fun _ => rfl, fun _ _ => rfl⟩
  remaining := ⟨fun _ => rfl, fun _ _ => rfl⟩
  refuse what := ⟨fun _ => rfl, fun _ _ => rfl⟩
  take kinds what := by
    refine ⟨fun c => ?_, fun _ _ => rfl⟩
    rw [take]
    split_ifs <;> rfl
  build x := by
    refine ⟨fun c => ?_, fun _ _ => rfl⟩
    cases x <;> rfl

theorem Orderly.depth_endOf {α : Type} {r : Rule α} (h : r.Orderly) (c : Cursor) :
    (endOf (r c)).depth = c.depth := by
  obtain ⟨ts, hp, -⟩ := h.crosses c
  exact hp.depth

theorem nested_congr {α : Type} {r r' : Rule α} {c : Cursor}
    (h : r { c with depth := c.depth + 1 } = r' { c with depth := c.depth + 1 }) :
    nested r c = nested r' c := by
  rw [nested, nested, h]

/-- **A power opens a level** up to the limit. -/
theorem power_eq (limit : Nat) (c : Cursor) : power limit c =
    if c.depth < limit then
      nested (raised (primary (expression limit) (power limit)) (power limit)) c
    else tooDeep c := by
  split_ifs with h
  · obtain ⟨room, hroom⟩ : ∃ room, limit - c.depth = room + 1 := ⟨limit - c.depth - 1, by omega⟩
    have hinner : (sameAt (c.depth + 1)).rel (powerWithin room) (power limit) := by
      refine ⟨(orderly_powerWithin room).depth_endOf, fun c' hc' => ?_⟩
      have hroom' : limit - c'.depth = room := by omega
      rw [power, hroom']
    have hbody := Congruence.raised
      (Congruence.primary (Congruence.expressionOver hinner) hinner) hinner
    rw [power, hroom]
    exact nested_congr (hbody.2 { c with depth := c.depth + 1 } rfl)
  · have hroom : limit - c.depth = 0 := by omega
    rw [power, hroom]
    rfl

end Rule

end AelSyntax
