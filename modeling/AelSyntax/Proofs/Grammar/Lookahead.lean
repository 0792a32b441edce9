import AelSyntax.Proofs.Grammar.Stopping
import Mathlib.Tactic.Common

/-! # What a run has not come to

A run looks at the tokens it passes and at the one where it stops, and at no other. So in front of
two lists of tokens that begin alike, a run that stops in the common part of one goes the same way
in front of the other (`Rule.Agree`), whether it succeeds or fails there. The numbers that bound the
loops are not the same on both sides, but neither loop comes to its bound.

* `Rule.local_program`: so it is with programs, whatever the tokens are. -/

namespace AelSyntax

/-! ### Cursors and ends of runs -/

/-- Up to some tokens at the end of each, two cursors have the same tokens in front of them. -/
def Cursor.Shares (v w : List Token) (c d : Cursor) : Prop :=
  ∃ us, c.rest = us ++ v ∧ d.rest = us ++ w ∧ d.depth = c.depth

namespace Rule

/-- The end of a run at another cursor. -/
def endingAt {α : Type} (d : Cursor) :
    EStateM.Result Fault Cursor α → EStateM.Result Fault Cursor α
  | .ok a _ => .ok a d
  | .error e _ => .error e d

/-- What a run gives, apart from its cursor. -/
def outcome {α : Type} : EStateM.Result Fault Cursor α → Except Fault α
  | .ok a _ => .ok a
  | .error e _ => .error e

/-- If one run stops before the tokens that are not common, then so does the other, in the same
way. -/
def Agree {α : Type} (v w : List Token) (res res' : EStateM.Result Fault Cursor α) : Prop :=
  v.length < (endOf res).rest.length →
    ∃ d, (endOf res).Shares v w d ∧ res' = endingAt d res

/-- A rule never has more tokens in front of it than at the start. -/
def Shrinks {α : Type} (r : Rule α) : Prop :=
  ∀ c : Cursor, (endOf (r c)).rest.length ≤ c.rest.length

/-- Where a rule succeeds, at least one token is passed, if there is one. -/
def Advances {α : Type} (r : Rule α) : Prop :=
  ∀ ⦃c c' : Cursor⦄ ⦃a : α⦄, r c = .ok a c' → c.rest ≠ [] → c'.rest.length < c.rest.length

/-- A rule goes the same way wherever the tokens it comes to are the same. -/
structure Local {α : Type} (v w : List Token) (r : Rule α) : Prop where
  shrinks : r.Shrinks
  agrees : ∀ ⦃c d : Cursor⦄, c.Shares v w d → Agree v w (r c) (r d)

end Rule

namespace Cursor.Shares

variable {v w : List Token} {c d : Cursor}

/-- In the common part the tokens at the cursors are the same, and they are passed on both sides. -/
theorem exists_cons (h : c.Shares v w d) (hlen : v.length < c.rest.length) :
    d.current = c.current ∧ c.advanced.Shares v w d.advanced ∧
      c.rest.length = c.advanced.rest.length + 1 ∧ d.rest.length = d.advanced.rest.length + 1 := by
  obtain ⟨us, hc, hd, hdepth⟩ := h
  cases us with
  | nil =>
    rw [hc, List.nil_append] at hlen
    exact absurd hlen (Nat.lt_irrefl _)
  | cons t us =>
    rw [List.cons_append] at hc hd
    have hc' := Cursor.rest_advanced hc
    have hd' := Cursor.rest_advanced hd
    refine ⟨by rw [current_eq hc, current_eq hd], ⟨us, hc', hd', hdepth⟩, ?_, ?_⟩
    · rw [hc, hc', List.length_cons]
    · rw [hd, hd', List.length_cons]

theorem current_eq (h : c.Shares v w d) (hlen : v.length < c.rest.length) :
    d.current = c.current := (h.exists_cons hlen).1

theorem advanced (h : c.Shares v w d) (hlen : v.length < c.rest.length) :
    c.advanced.Shares v w d.advanced := (h.exists_cons hlen).2.1

end Cursor.Shares

namespace Rule

variable {α β : Type} {v w : List Token} {r : Rule α} {g : α → Rule β} {c d : Cursor}

/-! ### Runs do not go back -/

theorem Shrinks.le_of_ok (h : r.Shrinks) {a : α} {c' : Cursor} (hrun : r c = .ok a c') :
    c'.rest.length ≤ c.rest.length := by
  have hle := h c
  rw [hrun] at hle
  exact hle

/-- A rule that only goes past tokens has no more of them in front of it. -/
theorem Orderly.shrinks (h : r.Orderly) : r.Shrinks := by
  intro c
  obtain ⟨us, hp, -⟩ := h.crosses c
  rw [hp.rest, List.length_append]
  exact Nat.le_add_left _ _

theorem length_endOf_bind_le (hg : ∀ a, (g a).Shrinks) (c : Cursor) :
    (endOf ((r >>= g) c)).rest.length ≤ (endOf (r c)).rest.length := by
  cases hrun : r c with
  | ok a c₁ =>
    rw [bind_of_ok hrun]
    exact hg a c₁
  | error e c₁ =>
    rw [bind_of_error hrun]
    exact le_rfl

theorem Shrinks.bind (hr : r.Shrinks) (hg : ∀ a, (g a).Shrinks) : (r >>= g).Shrinks := fun c =>
  (length_endOf_bind_le hg c).trans (hr c)

theorem shrinks_current : current.Shrinks := fun _ => le_rfl

theorem shrinks_advance : advance.Shrinks := by
  intro c
  show c.rest.tail.length ≤ _
  rw [List.length_tail]
  omega

theorem shrinks_take (kinds : List Kind) (what : String) : (take kinds what).Shrinks := by
  intro c
  rw [take]
  split_ifs
  · exact shrinks_advance c
  · exact le_rfl

theorem shrinks_pure (a : α) : (pure a : Rule α).Shrinks := fun _ => le_rfl

theorem shrinks_build (x : Except Malformed α) : (build x).Shrinks := by
  cases x <;> exact fun _ => le_rfl

theorem shrinks_chainWithin {kinds : List Kind} {operand : Rule Expr} (h : operand.Shrinks)
    (n : Nat) : ∀ left : Expr, (chainWithin kinds operand n left).Shrinks := by
  induction n with
  | zero => exact fun left => shrinks_pure left
  | succ n ih =>
    intro left
    refine shrinks_current.bind fun t => ?_
    split_ifs
    · exact shrinks_advance.bind fun op => h.bind fun right => (shrinks_build _).bind ih
    · exact shrinks_pure left

theorem shrinks_statementsWithin {stmt : Rule Statement} (h : stmt.Shrinks) (n : Nat) :
    (statementsWithin stmt n).Shrinks := by
  induction n with
  | zero => exact shrinks_pure []
  | succ n ih =>
    refine shrinks_current.bind fun t => ?_
    split_ifs
    · exact shrinks_pure []
    · exact h.bind fun s => ih.bind fun ss => shrinks_pure _

/-! ### Parts that go the same way -/

/-- Where a run ends outside the common part, nothing is said. -/
theorem agree_of_le {res res' : EStateM.Result Fault Cursor α}
    (h : (endOf res).rest.length ≤ v.length) : Agree v w res res' :=
  fun hlen => absurd hlen (Nat.not_lt.mpr h)

theorem agree_ok (h : c.Shares v w d) (a : α) : Agree v w (.ok a c) (.ok a d) :=
  fun _ => ⟨d, h, rfl⟩

/-- Two runs agree if their first parts do, and then their second parts. -/
theorem Agree.bind {r' : Rule α} {g' : α → Rule β} (hr : Agree v w (r c) (r' d))
    (hshrinks : ∀ a, (g a).Shrinks)
    (hg : ∀ a c₁ d₁, r c = .ok a c₁ → r' d = .ok a d₁ → c₁.Shares v w d₁ →
      Agree v w (g a c₁) (g' a d₁)) :
    Agree v w ((r >>= g) c) ((r' >>= g') d) := by
  intro hlen
  cases hrun : r c with
  | ok a c₁ =>
    rw [hrun] at hr
    rw [bind_of_ok hrun] at hlen ⊢
    obtain ⟨d₁, hshares, hd⟩ := hr (Nat.lt_of_lt_of_le hlen (hshrinks a c₁))
    rw [bind_of_ok hd]
    exact hg a c₁ d₁ hrun hd hshares hlen
  | error e c₁ =>
    rw [hrun] at hr
    rw [bind_of_error hrun] at hlen ⊢
    obtain ⟨d₁, hshares, hd⟩ := hr hlen
    exact ⟨d₁, hshares, bind_of_error hd⟩

theorem Local.bind (hr : r.Local v w) (hg : ∀ a, (g a).Local v w) : (r >>= g).Local v w :=
  ⟨hr.shrinks.bind fun a => (hg a).shrinks, fun _ _ h =>
    (hr.agrees h).bind (fun a => (hg a).shrinks) fun a _ _ _ _ h₁ => (hg a).agrees h₁⟩

theorem Local.ite {s : Rule α} (hr : r.Local v w) (hs : s.Local v w) (p : Prop) [Decidable p] :
    (if p then r else s).Local v w := by
  split_ifs
  · exact hr
  · exact hs

theorem local_pure (a : α) : (pure a : Rule α).Local v w :=
  ⟨shrinks_pure a, fun _ _ h => agree_ok h a⟩

theorem local_current : current.Local v w := by
  refine ⟨shrinks_current, fun c d h hlen => ⟨d, h, ?_⟩⟩
  show EStateM.Result.ok d.current d = _
  rw [h.current_eq hlen]
  rfl

theorem local_advance : advance.Local v w := by
  refine ⟨shrinks_advance, fun c d h hlen => ?_⟩
  have hlen' := Nat.lt_of_lt_of_le hlen (shrinks_advance c)
  refine ⟨d.advanced, h.advanced hlen', ?_⟩
  show EStateM.Result.ok d.current _ = _
  rw [h.current_eq hlen']
  rfl

theorem local_refuse (what : String) : (refuse what : Rule α).Local v w := by
  refine ⟨fun _ => le_rfl, fun c d h hlen => ⟨d, h, ?_⟩⟩
  show EStateM.Result.error (d.current.refusal what) d = _
  rw [h.current_eq hlen]
  rfl

theorem local_tooDeep : (tooDeep : Rule α).Local v w := by
  have hend (c : Cursor) : endOf (tooDeep (α := α) c) = c := by
    rw [tooDeep]
    split_ifs <;> rfl
  refine ⟨fun c => (congrArg (·.rest.length) (hend c)).le, fun c d h hlen => ?_⟩
  rw [hend] at hlen
  refine ⟨d, by rw [hend]; exact h, ?_⟩
  rw [tooDeep, tooDeep, h.current_eq hlen]
  split_ifs <;> rfl

theorem local_take (kinds : List Kind) (what : String) : (take kinds what).Local v w := by
  refine ⟨shrinks_take kinds what, fun c d h hlen => ?_⟩
  by_cases hk : c.current.kind ∈ kinds
  · rw [take, if_pos hk] at hlen ⊢
    have hlen' := Nat.lt_of_lt_of_le hlen (shrinks_advance c)
    refine ⟨d.advanced, h.advanced hlen', ?_⟩
    rw [take, h.current_eq hlen', if_pos hk]
    rfl
  · rw [take, if_neg hk] at hlen ⊢
    refine ⟨d, h, ?_⟩
    rw [take, h.current_eq hlen, if_neg hk]
    rfl

theorem local_build (x : Except Malformed α) : (build x).Local v w := by
  cases x with
  | ok a => exact local_pure a
  | error m => exact ⟨fun _ => le_rfl, fun _ d h _ => ⟨d, h, rfl⟩⟩

/-- How a rule one level deeper ends: as the rule does, back at the level before. -/
theorem nested_eq (r : Rule α) (c : Cursor) :
    nested r c = endingAt
      { endOf (r { c with depth := c.depth + 1 }) with
        depth := (endOf (r { c with depth := c.depth + 1 })).depth - 1 }
      (r { c with depth := c.depth + 1 }) := by
  rw [nested]
  split
  · next h => rw [h]; rfl
  · next h => rw [h]; rfl

@[simp] theorem outcome_endingAt (res : EStateM.Result Fault Cursor α) :
    outcome (endingAt d res) = outcome res := by
  cases res <;> rfl

theorem endOf_endingAt (res : EStateM.Result Fault Cursor α) : endOf (endingAt d res) = d := by
  cases res <;> rfl

theorem endingAt_endingAt (res : EStateM.Result Fault Cursor α) :
    endingAt d (endingAt c res) = endingAt d res := by
  cases res <;> rfl

theorem Shrinks.nested (h : r.Shrinks) : (nested r).Shrinks := by
  intro c
  rw [nested_eq, endOf_endingAt]
  exact h { c with depth := c.depth + 1 }

theorem Local.nested (h : r.Local v w) : (nested r).Local v w := by
  refine ⟨h.shrinks.nested, fun c d ⟨us, hc, hd, hdepth⟩ => ?_⟩
  have hagree := h.agrees (c := { c with depth := c.depth + 1 })
    (d := { d with depth := d.depth + 1 }) ⟨us, hc, hd, congrArg (· + 1) hdepth⟩
  rw [nested_eq, nested_eq]
  intro hlen
  rw [endOf_endingAt] at hlen ⊢
  obtain ⟨d₁, ⟨us₁, hc₁, hd₁, hdepth₁⟩, hrun⟩ := hagree hlen
  rw [hrun, endingAt_endingAt, endOf_endingAt]
  exact ⟨{ d₁ with depth := d₁.depth - 1 }, ⟨us₁, hc₁, hd₁, congrArg (· - 1) hdepth₁⟩,
    (endingAt_endingAt _).symm⟩

/-! ### Expressions -/

section Expressions

variable {operand : Rule Expr} {kinds : List Kind}

/-- Two chains agree, each with a bound that it does not come to. -/
theorem agree_chainWithin (h : operand.Local v w) (n : Nat) :
    ∀ {m : Nat} (left : Expr) {c d : Cursor}, c.Shares v w d → c.rest.length ≤ n →
      d.rest.length ≤ m →
        Agree v w (chainWithin kinds operand n left c) (chainWithin kinds operand m left d) := by
  induction n with
  | zero =>
    intro m left c d _ hn _
    exact agree_of_le (hn.trans (Nat.zero_le _))
  | succ n ih =>
    intro m left c d hshares hn hm
    by_cases hlen : v.length < c.rest.length
    · obtain ⟨hcurrent, hadvanced, hc, hd⟩ := hshares.exists_cons hlen
      obtain ⟨m, rfl⟩ : ∃ m', m = m' + 1 := ⟨m - 1, by omega⟩
      rw [chainWithin, chainWithin, current_bind, current_bind, hcurrent]
      split_ifs
      · rw [advance_bind, advance_bind, hcurrent]
        refine (h.agrees hadvanced).bind
          (fun right => (shrinks_build _).bind (shrinks_chainWithin h.shrinks n))
          fun right c₁ d₁ hc₁ hd₁ h₁ => ?_
        have hlec := h.shrinks.le_of_ok hc₁
        have hled := h.shrinks.le_of_ok hd₁
        refine ((local_build _).agrees h₁).bind (shrinks_chainWithin h.shrinks n)
          fun joined c₂ d₂ hc₂ hd₂ h₂ => ?_
        have hlec₂ := (shrinks_build _).le_of_ok hc₂
        have hled₂ := (shrinks_build _).le_of_ok hd₂
        exact ih joined h₂ (by omega) (by omega)
      · exact agree_ok hshares left
    · exact agree_of_le ((shrinks_chainWithin h.shrinks _ left c).trans (Nat.not_lt.mp hlen))

theorem local_chain (h : operand.Local v w) : (chain kinds operand).Local v w := by
  have hshrinks (left : Expr) : (remaining >>= fun n =>
      chainWithin kinds operand n left).Shrinks := fun c =>
    shrinks_chainWithin h.shrinks c.rest.length left c
  refine ⟨h.shrinks.bind hshrinks, fun c d hshares => ?_⟩
  refine (h.agrees hshares).bind hshrinks fun left c₁ d₁ _ _ h₁ => ?_
  rw [remaining_bind, remaining_bind]
  exact agree_chainWithin h _ left h₁ le_rfl le_rfl

theorem local_comparison (h : operand.Local v w) : (comparison operand).Local v w :=
  h.bind fun _ => local_current.bind fun _ => Local.ite
    (local_advance.bind fun _ => h.bind fun _ => local_build _) (local_pure _) _

theorem local_term (h : operand.Local v w) : (term operand).Local v w :=
  local_current.bind fun _ => Local.ite
    (local_advance.bind fun _ => h.bind fun _ => local_build _) h _

theorem local_raised {base : Rule Expr} (hbase : base.Local v w) (h : operand.Local v w) :
    (raised base operand).Local v w :=
  hbase.bind fun _ => local_current.bind fun _ => Local.ite
    (local_advance.bind fun _ => h.bind fun _ => local_build _) (local_pure _) _

theorem local_primary {inside : Rule Expr} (hinside : inside.Local v w) (h : operand.Local v w) :
    (primary inside operand).Local v w := by
  refine local_current.bind fun t => ?_
  have happlied : (advance >>= fun op => operand >>= fun e =>
      build (Expr.ofUnary op.text e op.place)).Local v w :=
    local_advance.bind fun _ => h.bind fun _ => local_build _
  cases t.kind with
  | identifier => exact local_advance.bind fun _ => local_pure _
  | number => exact local_advance.bind fun _ => local_build _
  | openParen =>
    exact local_advance.bind fun _ => hinside.bind fun _ => (local_take _ _).bind fun _ =>
      local_pure _
  | absWord => exact happlied
  | sqrtWord => exact happlied
  | _ => exact local_refuse _

theorem local_expressionOver (h : operand.Local v w) : (expressionOver operand).Local v w :=
  local_comparison (local_chain (local_term (local_chain h)))

theorem local_powerWithin (room : Nat) : (powerWithin room).Local v w := by
  induction room with
  | zero => exact local_tooDeep
  | succ room ih => exact (local_raised (local_primary (local_expressionOver ih) ih) ih).nested

theorem local_power (limit : Nat) : (power limit).Local v w := by
  refine ⟨fun c => (local_powerWithin (v := v) (w := w) (limit - c.depth)).shrinks c,
    fun c d h => ?_⟩
  obtain ⟨-, -, -, hdepth⟩ := id h
  rw [power, power, hdepth]
  exact (local_powerWithin _).agrees h

theorem local_expression (limit : Nat) : (expression limit).Local v w :=
  local_expressionOver (local_power limit)

end Expressions

/-! ### Statements -/

section Statements

variable {expr : Rule Expr} {stmt : Rule Statement}

theorem local_statement (h : expr.Local v w) : (statement expr).Local v w := by
  refine local_current.bind fun t => ?_
  cases t.kind with
  | letWord =>
    exact local_advance.bind fun _ => (local_take _ _).bind fun _ => (local_take _ _).bind fun _ =>
      h.bind fun _ => local_pure _
  | identifier =>
    exact local_advance.bind fun _ => (local_take _ _).bind fun _ => h.bind fun _ => local_pure _
  | printWord => exact local_advance.bind fun _ => h.bind fun _ => local_pure _
  | _ => exact local_refuse _

theorem advances_advance_bind {g : Token → Rule α} (hg : ∀ t, (g t).Shrinks) :
    (advance >>= g).Advances := by
  intro c c' a hrun hc
  have hle : c'.rest.length ≤ c.rest.tail.length := (hg c.current).le_of_ok (c := c.advanced) hrun
  have hpos := List.length_pos_iff.mpr hc
  rw [List.length_tail] at hle
  omega

theorem advances_statement (h : expr.Shrinks) : (statement expr).Advances := by
  intro c c' s hrun
  rw [statement, current_bind] at hrun
  cases hk : c.current.kind <;> rw [hk] at hrun
  case letWord =>
    refine advances_advance_bind (fun t => ?_) hrun
    exact (shrinks_take _ _).bind fun _ => (shrinks_take _ _).bind fun _ => h.bind fun _ =>
      shrinks_pure _
  case identifier =>
    refine advances_advance_bind (fun t => ?_) hrun
    exact (shrinks_take _ _).bind fun _ => h.bind fun _ => shrinks_pure _
  case printWord =>
    refine advances_advance_bind (fun t => ?_) hrun
    exact h.bind fun _ => shrinks_pure _
  all_goals cases hrun

/-- Two runs over statements agree, each with a bound that it does not come to. -/
theorem agree_statementsWithin (h : stmt.Local v w) (hadvances : stmt.Advances) (n : Nat) :
    ∀ {m : Nat} {c d : Cursor}, c.Shares v w d → c.rest.length ≤ n → d.rest.length ≤ m →
      Agree v w (statementsWithin stmt n c) (statementsWithin stmt m d) := by
  induction n with
  | zero =>
    intro m c d _ hn _
    exact agree_of_le (hn.trans (Nat.zero_le _))
  | succ n ih =>
    intro m c d hshares hn hm
    by_cases hlen : v.length < c.rest.length
    · obtain ⟨hcurrent, -, hc, hd⟩ := hshares.exists_cons hlen
      obtain ⟨m, rfl⟩ : ∃ m', m = m' + 1 := ⟨m - 1, by omega⟩
      rw [statementsWithin, statementsWithin, current_bind, current_bind, hcurrent]
      split_ifs
      · exact agree_ok hshares []
      · have hmore := shrinks_statementsWithin h.shrinks n
        refine (h.agrees hshares).bind
          (fun s => hmore.bind fun ss => shrinks_pure _) fun s c₁ d₁ hc₁ hd₁ h₁ => ?_
        have hltc := hadvances hc₁ (List.ne_nil_of_length_eq_add_one hc)
        have hltd := hadvances hd₁ (List.ne_nil_of_length_eq_add_one hd)
        refine (ih h₁ (by omega) (by omega)).bind (fun ss => shrinks_pure _)
          fun ss c₂ d₂ _ _ h₂ => ?_
        exact agree_ok h₂ (s :: ss)
    · exact agree_of_le ((shrinks_statementsWithin h.shrinks _ c).trans (Nat.not_lt.mp hlen))

/-- Behind the first statement of a program, more of them are read. -/
theorem agree_more (h : stmt.Local v w) (hadvances : stmt.Advances) {n m : Nat} (s : Statement)
    (p : Place) (hshares : c.Shares v w d) (hn : c.rest.length ≤ n) (hm : d.rest.length ≤ m) :
    Agree v w ((statementsWithin stmt n >>= fun ss => pure (Program.mk (s :: ss) p)) c)
      ((statementsWithin stmt m >>= fun ss => pure (Program.mk (s :: ss) p)) d) :=
  (agree_statementsWithin h hadvances n hshares hn hm).bind (fun _ => shrinks_pure _)
    fun _ _ _ _ _ h₁ => agree_ok h₁ _

theorem shrinks_more (h : stmt.Shrinks) (s : Statement) (p : Place) : (remaining >>= fun n =>
    statementsWithin stmt n >>= fun ss => pure (Program.mk (s :: ss) p)).Shrinks := fun c =>
  (shrinks_statementsWithin h c.rest.length).bind (fun _ => shrinks_pure _) c

/-- **A program is read in the same way wherever the tokens that are come to are the same.** -/
theorem local_program (limit : Nat) : (program (statement (expression limit))).Local v w := by
  have hexpr := local_expression (v := v) (w := w) limit
  have hstmt := local_statement hexpr
  have hmore (first : Token) := hstmt.shrinks.bind fun s =>
    shrinks_more hstmt.shrinks s first.place
  refine ⟨shrinks_current.bind hmore, fun c d hshares => ?_⟩
  refine (local_current.agrees hshares).bind hmore fun first c₁ d₁ _ _ h₁ => ?_
  refine (hstmt.agrees h₁).bind (fun s => shrinks_more hstmt.shrinks s first.place)
    fun s c₂ d₂ _ _ h₂ => ?_
  rw [remaining_bind, remaining_bind]
  exact agree_more hstmt (advances_statement hexpr.shrinks) s first.place h₂ le_rfl le_rfl

/-- Where a statement begins, a program is read as statements are. -/
theorem agree_program (h : stmt.Local v w) (hadvances : stmt.Advances) {n : Nat}
    (hshares : c.Shares v w d) (hk : c.current.kind ≠ .finish) (hn : d.rest.length ≤ n)
    (hlen : v.length < c.rest.length) :
    Agree v w (program stmt c)
      ((statementsWithin stmt n >>= fun ss => pure (Program.mk ss c.current.place)) d) := by
  obtain ⟨hcurrent, -, hc, hd⟩ := hshares.exists_cons hlen
  obtain ⟨n, rfl⟩ : ∃ n', n = n' + 1 := ⟨n - 1, by omega⟩
  have hsteps : (statementsWithin stmt (n + 1) >>= fun ss =>
      pure (Program.mk ss c.current.place)) d = (stmt >>= fun s => statementsWithin stmt n >>=
        fun ss => pure (Program.mk (s :: ss) c.current.place)) d := by
    rw [bind_of_eq (statementsWithin_of_ne (by rw [hcurrent]; exact hk))]
    simp only [bind_assoc, pure_bind]
  rw [hsteps, program_eq]
  refine (h.agrees hshares).bind (fun s => shrinks_more h.shrinks s c.current.place)
    fun s c₁ d₁ hc₁ hd₁ h₁ => ?_
  have hltd := hadvances hd₁ (List.ne_nil_of_length_eq_add_one hd)
  rw [remaining_bind]
  exact agree_more h hadvances s c.current.place h₁ le_rfl (by omega)

end Statements

end Rule

/-! ### Lists of tokens -/

namespace Program

open Rule

variable {limit : Nat} {ts : List Token}

theorem ofTokensWithin_eq (limit : Nat) (ts : List Token) : ofTokensWithin limit ts =
    outcome (program (statement (expression limit)) (.ofTokens ts)) := by
  rw [ofTokensWithin]
  cases program (statement (expression limit)) (.ofTokens ts) <;> rfl

/-- **The tokens behind the one where the reading stops make no difference**, nor does anything
else but the tokens up to there. -/
theorem ofTokensWithin_of_shares {c : Cursor} {v w : List Token}
    (h : c.Shares v w (.ofTokens ts))
    (hlen : v.length < (endOf (program (statement (expression limit)) c)).rest.length) :
    ofTokensWithin limit ts = outcome (program (statement (expression limit)) c) := by
  obtain ⟨d, -, hd⟩ := (local_program limit).agrees h hlen
  rw [ofTokensWithin_eq, hd, outcome_endingAt]

end Program

end AelSyntax
