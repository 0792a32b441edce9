import AelSyntax.Proofs.Grammar.Unrolling
import Mathlib.Tactic.Common

/-! # The end of a list of tokens

The end of the text is the first token of its kind, or it is behind the last token where there is
none. Two cursors see the same if the tokens up to that end are the same and the end is at the same
place (`Cursor.SeesAs`); what stands behind it, what text the token of the end has, and whether
there is such a token at all, makes no difference. A rule respects this (`Rule.Respects`) as long as
it passes no token without having looked at its kind, and so do all rules of the grammar; their
loops are compared turn by turn, since the numbers that bound them are not the same.

* `Program.ofTokensWithin_ends`: a list of tokens without an end is read as if the end stood right
  behind its last token, and nothing behind the first end is read. -/

namespace AelSyntax

/-! ### Cursors that see the same -/

/-- Two faults are shown in the same way. -/
def Fault.ShownAs (e e' : Fault) : Prop := e.diagnostic? = e'.diagnostic? ∧ e.message = e'.message

theorem Fault.shownAs_refused {reason reason' : Refusal} {p : Place}
    (hfamily : reason.family = reason'.family)
    (hdescription : reason.description = reason'.description) :
    (refused reason p).ShownAs (refused reason' p) := by
  rw [ShownAs, diagnostic?, diagnostic?, message, message, hfamily, hdescription]
  exact ⟨rfl, rfl⟩

namespace Cursor

/-- In front of a cursor stand some tokens and behind them, at a place, the end of the text. -/
def Sees (us : List Token) (p : Place) (c : Cursor) : Prop :=
  (c.rest = us ∧ c.lastPlace = p) ∨
    ∃ e junk, c.rest = us ++ e :: junk ∧ e.kind = .finish ∧ e.place = p

/-- Two cursors at the same depth see the same tokens up to the end of the text, and the end at the
same place. -/
def SeesAs (c d : Cursor) : Prop :=
  c.depth = d.depth ∧ ∃ us p, (∀ t ∈ us, t.kind ≠ .finish) ∧ c.Sees us p ∧ d.Sees us p

variable {us : List Token} {p : Place} {t : Token} {c d : Cursor}

theorem Sees.current_nil (h : c.Sees [] p) : c.current.kind = .finish ∧ c.current.place = p := by
  rcases h with ⟨hrest, hlast⟩ | ⟨e, junk, hrest, hk, hp⟩
  · rw [current, hrest]
    exact ⟨rfl, hlast⟩
  · rw [current_eq hrest]
    exact ⟨hk, hp⟩

theorem Sees.current_cons (h : c.Sees (t :: us) p) : c.current = t ∧ c.advanced.Sees us p := by
  rcases h with ⟨hrest, hlast⟩ | ⟨e, junk, hrest, he⟩
  · exact ⟨current_eq hrest, .inl ⟨rest_advanced hrest, hlast⟩⟩
  · exact ⟨current_eq hrest, .inr ⟨e, junk, rest_advanced hrest, he⟩⟩

/-- At a lexeme both cursors have the same token, and they go on seeing the same behind it. -/
theorem SeesAs.advanced (h : c.SeesAs d) (hk : c.current.kind ≠ .finish) :
    d.current = c.current ∧ c.advanced.SeesAs d.advanced := by
  obtain ⟨hdepth, us, p, hus, hc, hd⟩ := h
  cases us with
  | nil => exact absurd hc.current_nil.1 hk
  | cons t us =>
    obtain ⟨hct, hc'⟩ := hc.current_cons
    obtain ⟨hdt, hd'⟩ := hd.current_cons
    exact ⟨hdt.trans hct.symm, hdepth, us, p, (List.forall_mem_cons.mp hus).2, hc', hd'⟩

theorem SeesAs.current (h : c.SeesAs d) :
    d.current = c.current ∨
      c.current.kind = .finish ∧ d.current.kind = .finish ∧ d.current.place = c.current.place := by
  by_cases hk : c.current.kind = .finish
  · obtain ⟨-, us, p, hus, hc, hd⟩ := h
    cases us with
    | nil => exact .inr ⟨hk, hd.current_nil.1, hd.current_nil.2.trans hc.current_nil.2.symm⟩
    | cons t us =>
      rw [hc.current_cons.1] at hk
      exact absurd hk (List.forall_mem_cons.mp hus).1
  · exact .inl (h.advanced hk).1

theorem SeesAs.kind_eq (h : c.SeesAs d) : d.current.kind = c.current.kind := by
  rcases h.current with heq | ⟨hc, hd, -⟩
  · rw [heq]
  · rw [hc, hd]

theorem SeesAs.place_eq (h : c.SeesAs d) : d.current.place = c.current.place := by
  rcases h.current with heq | ⟨-, -, hp⟩
  · rw [heq]
  · exact hp

/-- A message tells no more of the end of the text than its place. -/
theorem SeesAs.refusal (h : c.SeesAs d) (what : String) :
    (c.current.refusal what).ShownAs (d.current.refusal what) := by
  rcases h.current with heq | ⟨hc, hd, hp⟩
  · rw [heq]
    exact ⟨rfl, rfl⟩
  · have hrefusal {t : Token} (hk : t.kind = .finish) :
        t.refusal what = .refused (.expected what t) t.place :=
      if_neg (by rw [hk]; decide)
    have hdescription {t : Token} (hk : t.kind = .finish) : t.description = "end of input" := by
      rw [Token.description, hk]
    rw [hrefusal hc, hrefusal hd, hp]
    refine Fault.shownAs_refused rfl (congrArg ("Expected " ++ what ++ ", got " ++ ·) ?_)
    rw [hdescription hc, hdescription hd]

end Cursor

namespace Rule

variable {α β : Type} {r s : Rule α} {g : α → Rule β} {c d : Cursor}

/-! ### Rules that respect what is seen -/

/-- Two runs end in the same way: with the same value at cursors that see the same, or with faults
that are shown in the same way. -/
def EndsAs : EStateM.Result Fault Cursor α → EStateM.Result Fault Cursor α → Prop
  | .ok a c, .ok b d => a = b ∧ c.SeesAs d
  | .error e _, .error e' _ => e.ShownAs e'
  | _, _ => False

/-- A rule ends in the same way wherever the same is seen. -/
def Respects (r : Rule α) : Prop := ∀ ⦃c d : Cursor⦄, c.SeesAs d → EndsAs (r c) (r d)

theorem EndsAs.bind (hr : EndsAs (r c) (r d)) (hg : ∀ a, (g a).Respects) :
    EndsAs ((r >>= g) c) ((r >>= g) d) := by
  cases hc : r c <;> cases hd : r d <;> rw [hc, hd] at hr
  case ok.ok a c₁ b d₁ =>
    obtain ⟨rfl, h₁⟩ := hr
    rw [bind_of_ok hc, bind_of_ok hd]
    exact hg a h₁
  case error.error e c₁ e' d₁ =>
    rw [bind_of_error hc, bind_of_error hd]
    exact hr
  all_goals exact hr.elim

theorem Respects.bind (hr : r.Respects) (hg : ∀ a, (g a).Respects) : (r >>= g).Respects :=
  fun _ _ h => (hr h).bind hg

theorem respects_pure (a : α) : (pure a : Rule α).Respects := fun _ _ h => ⟨rfl, h⟩

theorem respects_build (x : Except Malformed α) : (build x).Respects := by
  cases x with
  | ok a => exact respects_pure a
  | error m => exact fun _ _ _ => ⟨rfl, rfl⟩

theorem respects_refuse (what : String) : (refuse what : Rule α).Respects :=
  fun _ _ h => h.refusal what

/-- A token is passed in front of a rule, if it is no end of the text. -/
theorem endsAs_advance_bind {g : Token → Rule β} (hg : ∀ t, (g t).Respects) (h : c.SeesAs d)
    (hk : c.current.kind ≠ .finish) : EndsAs ((advance >>= g) c) ((advance >>= g) d) := by
  obtain ⟨heq, hadvanced⟩ := h.advanced hk
  rw [advance_bind, advance_bind, heq]
  exact hg _ hadvanced

theorem respects_take {k : Kind} (hk : k ≠ .finish) (what : String) : (take [k] what).Respects := by
  intro c d h
  by_cases hc : c.current.kind = k
  · obtain ⟨heq, hadvanced⟩ := h.advanced (by rw [hc]; exact hk)
    rw [take_of_eq hc, take_of_eq (h.kind_eq.trans hc), heq]
    exact ⟨rfl, hadvanced⟩
  · rw [take_of_ne hc, take_of_ne (by rw [h.kind_eq]; exact hc)]
    exact h.refusal what

theorem respects_tooDeep : (tooDeep : Rule α).Respects := by
  intro c d h
  rw [tooDeep, tooDeep, h.kind_eq, h.place_eq]
  split_ifs
  · exact h.refusal _
  · exact ⟨rfl, rfl⟩

theorem Respects.nested (hr : r.Respects) : (nested r).Respects := by
  rintro c d ⟨hdepth, hsees⟩
  have hinner := hr (c := { c with depth := c.depth + 1 }) (d := { d with depth := d.depth + 1 })
    ⟨congrArg (· + 1) hdepth, hsees⟩
  rw [Rule.nested, Rule.nested]
  cases hc : r { c with depth := c.depth + 1 } <;> cases hd : r { d with depth := d.depth + 1 } <;>
    rw [hc, hd] at hinner
  case ok.ok a c₁ b d₁ => exact ⟨hinner.1, congrArg (· - 1) hinner.2.1, hinner.2.2⟩
  case error.error e c₁ e' d₁ => exact hinner
  all_goals exact hinner.elim

/-- A rule that passes a token of certain kinds respects what is seen if the end of the text is none
of them. -/
theorem respects_guarded (goesOn : Kind → Prop) [DecidablePred goesOn] (hfinish : ¬ goesOn .finish)
    {g : Token → Rule α} (hg : ∀ t, (g t).Respects) (hs : s.Respects) :
    (current >>= fun t => if goesOn t.kind then advance >>= g else s).Respects := by
  intro c d h
  rw [current_bind, current_bind, h.kind_eq]
  split_ifs with hk
  · exact endsAs_advance_bind hg h fun hc => hfinish (hc ▸ hk)
  · exact hs h

/-! ### Loops -/

/-- Loops whose turns end in the same way end in the same way. -/
theorem Loops.endsAs {goesOn : Kind → Prop} {step : α → Rule α} {a : α}
    {res res' : EStateM.Result Fault Cursor α}
    (hstep : ∀ a ⦃c d⦄, c.SeesAs d → goesOn c.current.kind → EndsAs (step a c) (step a d))
    (hc : Loops goesOn step a c res) (h : c.SeesAs d) (hd : Loops goesOn step a d res') :
    EndsAs res res' := by
  induction hc generalizing d with
  | @done a c hk =>
    cases hd with
    | done _ => exact ⟨rfl, h⟩
    | fails hk' _ => exact absurd (h.kind_eq ▸ hk') hk
    | again hk' _ _ => exact absurd (h.kind_eq ▸ hk') hk
  | @fails a c c' e hk hs =>
    have hends := hstep a h hk
    rw [hs] at hends
    cases hd with
    | done hk' => exact absurd (h.kind_eq ▸ hk) hk'
    | fails _ hs' =>
      rw [hs'] at hends
      exact hends
    | again _ hs' _ =>
      rw [hs'] at hends
      exact hends.elim
  | @again a a' c c' res hk hs _ ih =>
    have hends := hstep a h hk
    rw [hs] at hends
    cases hd with
    | done hk' => exact absurd (h.kind_eq ▸ hk) hk'
    | fails _ hs' =>
      rw [hs'] at hends
      exact hends.elim
    | again _ hs' hl' =>
      rw [hs'] at hends
      obtain ⟨rfl, hsees⟩ := hends
      exact ih hsees hl'

/-- A rule respects what is seen if it is a loop behind one that does. -/
theorem LoopsAfter.respects {first : Rule α} {goesOn : Kind → Prop} {step : α → Rule α}
    (hr : r.LoopsAfter first goesOn step) (hfirst : first.Respects)
    (hstep : ∀ a ⦃c d⦄, c.SeesAs d → goesOn c.current.kind → EndsAs (step a c) (step a d)) :
    r.Respects := by
  intro c d h
  have hends := hfirst h
  have hc := hr c
  have hd := hr d
  cases hfc : first c <;> cases hfd : first d <;> rw [hfc, hfd] at hends <;>
    rw [hfc] at hc <;> rw [hfd] at hd
  case ok.ok a c₁ b d₁ =>
    obtain ⟨rfl, h₁⟩ := hends
    exact Loops.endsAs hstep hc h₁ hd
  case error.error e c₁ e' d₁ =>
    rw [show r c = _ from hc, show r d = _ from hd]
    exact hends
  all_goals exact hends.elim

/-! ### The rules of the grammar -/

section Expressions

variable {operand : Rule Expr}

theorem respects_chain {kinds : List Kind} (hkinds : .finish ∉ kinds) (h : operand.Respects)
    (hs : operand.Shrinks) : (chain kinds operand).Respects :=
  (loopsAfter_chain hkinds hs).respects h fun _ _ _ hsees hk =>
    endsAs_advance_bind (fun _ => h.bind fun _ => respects_build _) hsees
      fun hfinish => hkinds (hfinish ▸ hk)

theorem respects_comparison (h : operand.Respects) : (comparison operand).Respects :=
  h.bind fun left => respects_guarded (· = .equals) (by decide)
    (fun _ => h.bind fun _ => respects_build _) (respects_pure left)

theorem respects_term (h : operand.Respects) : (term operand).Respects :=
  respects_guarded (· = .minus) (by decide)
    (fun _ => h.bind fun _ => respects_build _) h

theorem respects_raised {base : Rule Expr} (hbase : base.Respects) (h : operand.Respects) :
    (raised base operand).Respects :=
  hbase.bind fun left => respects_guarded (· = .power) (by decide)
    (fun _ => h.bind fun _ => respects_build _) (respects_pure left)

theorem respects_primary {inside : Rule Expr} (hinside : inside.Respects) (h : operand.Respects) :
    (primary inside operand).Respects := by
  intro c d hsees
  rw [primary, current_bind, current_bind, hsees.kind_eq]
  have hpast {g : Token → Rule Expr} (hg : ∀ t, (g t).Respects) (hk : c.current.kind ≠ .finish) :
      EndsAs ((advance >>= g) c) ((advance >>= g) d) := endsAs_advance_bind hg hsees hk
  have happlied : ∀ op : Token, (operand >>= fun e =>
      build (Expr.ofUnary op.text e op.place)).Respects := fun _ => h.bind fun _ => respects_build _
  cases hk : c.current.kind <;> rw [hk] at hpast
  case identifier => exact hpast (fun _ => respects_pure _) (by decide)
  case number => exact hpast (fun _ => respects_build _) (by decide)
  case openParen =>
    refine hpast (fun _ => hinside.bind fun e => ?_) (by decide)
    exact (respects_take (by decide) _).bind fun _ => respects_pure e
  case absWord => exact hpast happlied (by decide)
  case sqrtWord => exact hpast happlied (by decide)
  all_goals exact respects_refuse _ hsees

theorem respects_expressionOver (h : operand.Respects) (ho : operand.Orderly) :
    (expressionOver operand).Respects := by
  have hproduct : (product operand).Respects := respects_chain (by decide) h ho.shrinks
  have hterm : (term (product operand)).Orderly := orderly_term (orderly_chain (t := .product) ho)
  exact respects_comparison (respects_chain (by decide) (respects_term hproduct) hterm.shrinks)

theorem respects_powerWithin (room : Nat) : (powerWithin room).Respects := by
  induction room with
  | zero => exact respects_tooDeep
  | succ room ih =>
    have hinside := respects_expressionOver ih (orderly_powerWithin room)
    exact (respects_raised (respects_primary hinside ih) ih).nested

theorem respects_expression (limit : Nat) : (expression limit).Respects := by
  have hpower : (power limit).Respects := by
    intro c d h
    rw [power, power, h.1]
    exact respects_powerWithin _ h
  exact respects_expressionOver hpower (orderly_power limit)

theorem respects_statement {expr : Rule Expr} (h : expr.Respects) : (statement expr).Respects := by
  intro c d hsees
  rw [statement, current_bind, current_bind, hsees.kind_eq]
  have hpast {g : Token → Rule Statement} (hg : ∀ t, (g t).Respects)
      (hk : c.current.kind ≠ .finish) : EndsAs ((advance >>= g) c) ((advance >>= g) d) :=
    endsAs_advance_bind hg hsees hk
  have hassigned (f : Expr → Statement) : (take [.assign] "'='" >>= fun _ =>
      expr >>= fun e => pure (f e)).Respects :=
    (respects_take (by decide) _).bind fun _ => h.bind fun _ => respects_pure _
  cases hk : c.current.kind <;> rw [hk] at hpast
  case letWord =>
    refine hpast (fun t => ?_) (by decide)
    exact (respects_take (by decide) _).bind fun name => hassigned _
  case identifier => exact hpast (fun t => hassigned _) (by decide)
  case printWord => exact hpast (fun t => h.bind fun _ => respects_pure _) (by decide)
  all_goals exact respects_refuse _ hsees

theorem respects_program (limit : Nat) : (program (statement (expression limit))).Respects := by
  have hstmt := respects_statement (respects_expression limit)
  have hadvances := advances_statement (orderly_expression limit).shrinks
  refine (loopsAfter_program hadvances).respects ?_ fun p _ _ h _ =>
    hstmt.bind (fun _ => respects_pure _) h
  intro c d h
  rw [opening, current_bind, current_bind, h.place_eq]
  exact hstmt.bind (fun _ => respects_pure _) h

end Expressions

end Rule

/-! ### Programs -/

namespace Program

open Rule

variable {limit : Nat} {ts : List Token} {e : Token}

/-- Two readings give the same program, or faults that are shown in the same way. -/
def SameOutcome : Except Fault Program → Except Fault Program → Prop
  | .ok p, .ok q => p = q
  | .error e, .error e' => e.ShownAs e'
  | _, _ => False

theorem sameOutcome_of_endsAs {res res' : EStateM.Result Fault Cursor Program}
    (h : EndsAs res res') : SameOutcome (outcome res) (outcome res') := by
  cases res <;> cases res'
  case ok.ok => exact h.1
  case error.error => exact h
  all_goals exact h.elim

/-- The end of the text is never passed, so nothing behind it is read. -/
theorem ofTokensWithin_append_cons (he : e.kind = .finish) (junk : List Token) :
    ofTokensWithin limit (ts ++ e :: junk) = ofTokensWithin limit (ts ++ [e]) := by
  have hcross := (orderly_program limit).crosses (.ofTokens (ts ++ [e]))
  have hshares : (Cursor.ofTokens (ts ++ [e])).Shares [] junk (.ofTokens (ts ++ e :: junk)) :=
    ⟨ts ++ [e], by simp [Cursor.ofTokens], by simp [Cursor.ofTokens], rfl⟩
  rw [ofTokensWithin_of_shares hshares, ofTokensWithin_eq]
  -- the end would be among the tokens that were passed if none were left
  obtain ⟨us, hp, hus⟩ := hcross
  have hrest : ts ++ [e] = us ++ _ := hp.rest
  rw [List.length_nil, List.length_pos_iff]
  intro hnil
  rw [hnil, List.append_nil] at hrest
  exact (hus e (by rw [← hrest]; simp)).2 he

/-- **The first end of the text is the end.** A list of tokens without an end is read as the same
list with an end behind it, where the last token ends, or at the start if there is no token; and
what stands behind an end makes no difference. -/
theorem ofTokensWithin_ends (limit : Nat) (ts : List Token) (e : Token) (he : e.kind = .finish) :
    ((∀ t ∈ ts, t.kind ≠ .finish) → e.place = (ts.getLast?.map Token.endPlace).getD .start →
      SameOutcome (ofTokensWithin limit ts) (ofTokensWithin limit (ts ++ [e]))) ∧
    ∀ junk, ofTokensWithin limit (ts ++ e :: junk) = ofTokensWithin limit (ts ++ [e]) := by
  refine ⟨fun hts hplace => ?_, ofTokensWithin_append_cons he⟩
  have hsees : (Cursor.ofTokens ts).SeesAs (.ofTokens (ts ++ [e])) :=
    ⟨rfl, ts, e.place, hts, .inl ⟨rfl, hplace.symm⟩, .inr ⟨e, [], rfl, he, rfl⟩⟩
  rw [ofTokensWithin_eq, ofTokensWithin_eq]
  exact sameOutcome_of_endsAs (respects_program limit hsees)

/-- A parenthesis that is left open is missed where the last token ends, whether an end of the text
stands there or not; one that stands behind the end closes nothing. -/
theorem ofTokensWithin_ends_of_open_group :
    let ts : List Token := [⟨.printWord, "print", ⟨1, 1⟩⟩, ⟨.openParen, "(", ⟨1, 7⟩⟩,
      ⟨.identifier, "x", ⟨1, 8⟩⟩]
    let e : Token := ⟨.finish, "", ⟨1, 9⟩⟩
    e.kind = .finish ∧ (∀ t ∈ ts, t.kind ≠ .finish) ∧
      e.place = (ts.getLast?.map Token.endPlace).getD .start ∧
      SameOutcome (ofTokensWithin 2 ts) (ofTokensWithin 2 (ts ++ [e])) ∧
      ofTokensWithin 2 (ts ++ [e, ⟨.closeParen, ")", ⟨1, 10⟩⟩]) =
        .error (.refused (.expected "')'" e) ⟨1, 9⟩) := by
  intro ts e
  have hts : ∀ t ∈ ts, t.kind ≠ .finish := by decide
  have hplace : e.place = (ts.getLast?.map Token.endPlace).getD .start := by decide
  obtain ⟨hmissing, hbehind⟩ := ofTokensWithin_ends 2 ts e rfl
  refine ⟨rfl, hts, hplace, hmissing hts hplace, (hbehind _).trans ?_⟩
  decide +kernel

end Program

end AelSyntax
