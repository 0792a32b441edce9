import AelSyntax.Proofs.Grammar.Congruence
import AelSyntax.Proofs.Grammar.Location
import AelSyntax.Proofs.Grammar.Lookahead
import Mathlib.Tactic.Common

/-! # The limit on nesting

With a higher limit a run goes the same way as with a lower one up to where the lower one is
exceeded, and then it goes on (`Rule.CutsShort`). At a stray character both limits give the same
refusal, so the limit that is reached there is not seen. All parts of the grammar respect this
relation (`Rule.cuts`); the levels are compared in `Rule.cuts_powerWithin`.

* `Program.limit_cuts_short`: a program keeps its tree and its places under a higher limit, a text
  that is refused for another reason than its nesting keeps its fault, and one that is refused for
  its nesting is accepted, or refused there or further on. -/

namespace AelSyntax

namespace Rule

/-- A run is cut short of another one: both end in the same way, or the first one stops where the
nesting is too deep, and the other one comes to that token. -/
def CutsShort {α : Type} (res res' : EStateM.Result Fault Cursor α) : Prop :=
  res' = res ∨ ∃ c, res = .error (.refused .nestedTooDeeply c.current.place) c ∧
    (endOf res').rest.length ≤ c.rest.length

section Parts

variable {α β : Type} {r r' : Rule α} {g g' : α → Rule β}

theorem CutsShort.refl (res : EStateM.Result Fault Cursor α) : CutsShort res res := .inl rfl

theorem CutsShort.bind {c : Cursor} (hr : CutsShort (r c) (r' c)) (hg' : ∀ a, (g' a).Shrinks)
    (hg : ∀ a c₁, CutsShort (g a c₁) (g' a c₁)) : CutsShort ((r >>= g) c) ((r' >>= g') c) := by
  rcases hr with heq | ⟨c₁, hcut, hle⟩
  · cases hrun : r c with
    | ok a c₁ =>
      rw [hrun] at heq
      rw [bind_of_ok hrun, bind_of_ok heq]
      exact hg a c₁
    | error e c₁ =>
      rw [hrun] at heq
      rw [bind_of_error hrun, bind_of_error heq]
      exact .refl _
  · rw [bind_of_error hcut]
    exact .inr ⟨c₁, rfl, (length_endOf_bind_le hg' c).trans hle⟩

/-- Of two rules the first one is cut short of the second one, wherever they begin. -/
def cuts : Congruence where
  rel r r' := r'.Shrinks ∧ ∀ c, CutsShort (r c) (r' c)
  pure a := ⟨shrinks_pure a, fun _ => .refl _⟩
  bind hr hg := ⟨hr.1.bind fun a => (hg a).1, fun c =>
    (hr.2 c).bind (fun a => (hg a).1) fun a => (hg a).2⟩
  current := ⟨shrinks_current, fun _ => .refl _⟩
  advance := ⟨shrinks_advance, fun _ => .refl _⟩
  remaining := ⟨fun _ => le_rfl, fun _ => .refl _⟩
  refuse _ := ⟨fun _ => le_rfl, fun _ => .refl _⟩
  take kinds what := ⟨shrinks_take kinds what, fun _ => .refl _⟩
  build x := ⟨shrinks_build x, fun _ => .refl _⟩

/-! ### Levels of nesting -/

theorem cuts_nested (h : cuts.rel r r') : cuts.rel (nested r) (nested r') := by
  refine ⟨h.1.nested, fun c => ?_⟩
  rw [nested_eq, nested_eq]
  rcases h.2 { c with depth := c.depth + 1 } with heq | ⟨c₁, hcut, hle⟩
  · rw [heq]
    exact .refl _
  · -- the token that is refused stands at every depth of the cursor
    rw [hcut]
    refine .inr ⟨{ c₁ with depth := c₁.depth - 1 }, rfl, ?_⟩
    rw [endOf_endingAt]
    exact hle

/-- Where there is no level left, a rule with more of them refuses the same stray characters. -/
theorem powerWithin_of_stray {c : Cursor} (hk : c.current.kind = .unknown) (room : Nat) :
    powerWithin room c = .error (c.current.refusal "an expression") c := by
  cases room with
  | zero => exact if_pos hk
  | succ room =>
    have hprimary : c.current.kind ∉ Cursor.powerStarters := by
      rw [hk]
      decide
    exact nested_of_error (bind_of_error
      (primary_of_not_mem (c := { c with depth := c.depth + 1 }) hprimary))

theorem cuts_tooDeep (room : Nat) : cuts.rel (powerWithin 0) (powerWithin room) := by
  have hshrinks := (orderly_powerWithin room).shrinks
  refine ⟨hshrinks, fun c => ?_⟩
  by_cases hk : c.current.kind = .unknown
  · left
    rw [powerWithin_of_stray hk, powerWithin_of_stray hk]
  · exact .inr ⟨c, if_neg hk, hshrinks c⟩

/-- A power with more room goes on where one with less room is cut short. -/
theorem cuts_powerWithin (room more : Nat) :
    cuts.rel (powerWithin room) (powerWithin (room + more)) := by
  induction room with
  | zero => exact cuts_tooDeep _
  | succ room ih =>
    rw [Nat.succ_add]
    exact cuts_nested (Congruence.raised (Congruence.primary (Congruence.expressionOver ih) ih) ih)

variable {m m' : Nat}

theorem cuts_power (h : m ≤ m') : cuts.rel (power m) (power m') := by
  refine ⟨(orderly_power m').shrinks, fun c => ?_⟩
  obtain ⟨more, hmore⟩ : ∃ more, m' - c.depth = m - c.depth + more :=
    ⟨m' - c.depth - (m - c.depth), by omega⟩
  rw [power, power, hmore]
  exact (cuts_powerWithin _ more).2 c

theorem cuts_program (h : m ≤ m') :
    cuts.rel (program (statement (expression m))) (program (statement (expression m'))) :=
  Congruence.program (Congruence.statement (Congruence.expressionOver (cuts_power h)))

end Parts

end Rule

/-! ### Programs -/

namespace Program

variable {m m' : Nat}

/-- The tokens that are passed and those that are left are all there are. -/
theorem position_add_length_stop (limit : Nat) (ts : List Token) :
    (stop limit ts).position + (stop limit ts).rest.length = ts.length := by
  obtain ⟨us, hp, -⟩ := crosses_stop limit ts
  have hlen : ts.length = us.length + (stop limit ts).rest.length := by
    rw [← List.length_append, ← hp.rest]
    rfl
  have hposition : (stop limit ts).position = 0 + us.length := hp.position
  omega

/-- Any list of tokens has the same outcome under both limits, or the lower one is exceeded, and
with the higher one the reading does not stop before. -/
theorem ofTokensWithin_cut (h : m ≤ m') (ts : List Token) :
    ofTokensWithin m' ts = ofTokensWithin m ts ∨
      ofTokensWithin m ts = .error (.refused .nestedTooDeeply (stop m ts).current.place) ∧
        (stop m ts).position ≤ (stop m' ts).position := by
  have hm := position_add_length_stop m ts
  have hm' := position_add_length_stop m' ts
  rw [ofTokensWithin_eq, ofTokensWithin_eq]
  rcases (Rule.cuts_program h).2 (.ofTokens ts) with heq | ⟨c, hcut, hle⟩
  · exact .inl (congrArg Rule.outcome heq)
  · have hstop : stop m ts = c := congrArg Rule.endOf hcut
    rw [hstop] at hm ⊢
    have hle' : (stop m' ts).rest.length ≤ c.rest.length := hle
    exact .inr ⟨congrArg Rule.outcome hcut, by omega⟩

/-- The reading of a text stops at the token that its position counts. -/
theorem getElem?_position_stop (limit : Nat) (source : String) :
    (tokensOf source)[(stop limit (tokensOf source)).position]? =
      some (stop limit (tokensOf source)).current := by
  obtain ⟨before, t, after, hsource, -, hcurrent, hposition, -⟩ := exists_stop limit source
  rw [hposition, hcurrent, hsource, List.getElem?_append_right le_rfl, Nat.sub_self]
  rfl

/-- **The limit only ever cuts off.** Under a higher limit a text has the same outcome, unless the
lower one refuses it for its nesting; then under the higher one it is a program, or it is refused at
the same token or a later one. So a program stays the program it is, and what is refused for another
reason stays refused for that reason and at that place. -/
theorem limit_cuts_short (source : String) (h : m ≤ m') :
    (ofTokensWithin m' (tokensOf source) = ofTokensWithin m (tokensOf source) ∨
      ∃ (i : Nat) (t : Token), (tokensOf source)[i]? = some t ∧
        ofTokensWithin m (tokensOf source) = .error (.refused .nestedTooDeeply t.place) ∧
          ((∃ p, ofTokensWithin m' (tokensOf source) = .ok p) ∨
            ∃ (j : Nat) (u : Token) (reason : Refusal), i ≤ j ∧ (tokensOf source)[j]? = some u ∧
              ofTokensWithin m' (tokensOf source) = .error (.refused reason u.place))) ∧
    (∀ p, ofTokensWithin m (tokensOf source) = .ok p →
      ofTokensWithin m' (tokensOf source) = .ok p) ∧
    ∀ reason p, ofTokensWithin m (tokensOf source) = .error (.refused reason p) →
      reason ≠ .nestedTooDeeply →
        ofTokensWithin m' (tokensOf source) = .error (.refused reason p) := by
  rcases ofTokensWithin_cut h (tokensOf source) with heq | ⟨hcut, hle⟩
  · rw [heq]
    exact ⟨.inl rfl, fun p hp => hp, fun reason p hp _ => hp⟩
  · refine ⟨.inr ⟨_, _, getElem?_position_stop m source, hcut, ?_⟩, fun p hp => ?_,
      fun reason p hp hne => ?_⟩
    · cases hm' : ofTokensWithin m' (tokensOf source) with
      | ok p => exact .inl ⟨p, rfl⟩
      | error fault =>
        obtain ⟨_, u, _, reason, -, rfl, -, -, rfl⟩ := exists_refused hm'
        exact .inr ⟨_, _, reason, hle, getElem?_position_stop m' source, rfl⟩
    · rw [hcut] at hp
      cases hp
    · rw [hcut] at hp
      cases hp
      exact absurd rfl hne

/-- One level more leads past an open parenthesis to the end of the text, where the closing one is
missed. -/
theorem limit_cuts_short_of_open_group : 1 ≤ 2 ∧
    ∃ (i j : Nat) (t u : Token) (reason : Refusal), (tokensOf "print (x")[i]? = some t ∧
      ofTokensWithin 1 (tokensOf "print (x") = .error (.refused .nestedTooDeeply t.place) ∧
        i ≤ j ∧ (tokensOf "print (x")[j]? = some u ∧
          ofTokensWithin 2 (tokensOf "print (x") = .error (.refused reason u.place) := by
  have h : 1 ≤ 2 := by decide
  obtain ⟨i, t, ht, hcut, hdeeper⟩ :=
    (limit_cuts_short "print (x" h).1.resolve_left (by decide +kernel)
  obtain ⟨j, u, reason, hij, hu, hrefused⟩ := hdeeper.resolve_left fun ⟨p, hp⟩ => by
    have hno : ofTokensWithin 2 (tokensOf "print (x") =
      .error (.refused (.expected "')'" (.finish ⟨1, 9⟩)) ⟨1, 9⟩) := by decide +kernel
    rw [hno] at hp
    cases hp
  exact ⟨h, i, j, t, u, reason, ht, hcut, hij, hu, hrefused⟩

end Program

end AelSyntax
