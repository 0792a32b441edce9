import AelSyntax.Proofs.Grammar.Failure
import AelSyntax.Proofs.Token.Order
import Mathlib.Tactic.Common

/-! # Correct prefixes

Statements and programs are refused as expressions are: at a misplaced token, which nothing behind
it can mend while the tokens before it can be completed, or where a level of nesting is too many,
which only a higher limit can mend. -/

namespace AelSyntax

/-- What a statement may consist of, with room for its nestings. -/
def Clause.Language (room : Nat) (ts : List Token) : Prop :=
  ∃ s : Clause, Within room s.nestings ∧ s.yield = ts

/-- What a program may consist of, with room for its nestings. -/
def Derivation.Language (room : Nat) (ts : List Token) : Prop :=
  ∃ d : Derivation, Within room d.nestings ∧ d.yield = ts

namespace Rule

variable {depth room : Nat}

/-- An expression that any room allows. -/
def someExpression : Phrase .expression := .plain (.chain (.bare (.chain somePower .done)) .done)

theorem within_someExpression (room : Nat) : Within (room + 1) someExpression.nestings :=
  within_somePower room

/-! ### Statements -/

section Statements

variable {expr : Rule Expr}

/-- What declarations and assignments may end with. -/
def Assigned (room : Nat) (ts : List Token) : Prop :=
  ∃ (q : Place) (p : Phrase .expression), Within room p.nestings ∧ .assigning q :: p.yield = ts

theorem assigned_refuses (h : expr.Parses depth .expression (room + 1)) (f : Expr → Statement) :
    (assigned expr f).Refuses depth (room + 1) Assigned := by
  intro c c' e hcl hd hrun
  rcases bind_eq_error.mp hrun with h₁ | ⟨_, c₁, h₁, hrun⟩
  · obtain ⟨hsign, rfl, rfl⟩ := take_eq_error.mp h₁
    refine ⟨[], .refl c', .inl ⟨⟨_, rfl⟩, fun c₁ v _ hc₁ => ?_, _, .start, someExpression,
      within_someExpression room, rfl⟩⟩
    rw [← Cursor.current_eq hc₁] at hsign ⊢
    exact ⟨_, c₁, bind_of_error (take_of_ne hsign), rfl⟩
  · obtain ⟨hsign, -, rfl⟩ := take_eq_ok.mp h₁
    have hc := hcl.wellFormed.rest_eq_mk hsign rfl
    rcases bind_eq_error.mp hrun with h₂ | ⟨_, _, _, h₂⟩
    · refine Refused.through 0 (Cursor.passes_advanced hc) ?_ ?_ (h.refuses (hcl.of_rest hc) hd h₂)
      · intro c₁ v hd₁ hc₁
        refine ⟨c₁.advanced, hd₁, Cursor.rest_advanced hc₁, fun e c' h => ⟨c', ?_⟩⟩
        rw [assigned, bind_of_ok (take_of_rest .assign hc₁ rfl), bind_of_error h]
      · rintro k _ - ⟨p, hp, rfl⟩
        exact ⟨[], c.current.place, p, hp, by simp [Token.assigning]⟩
    · cases h₂

theorem statement_refuses (h : expr.Parses depth .expression (room + 1)) :
    (statement expr).Refuses depth (room + 1) Clause.Language := by
  intro c c' e hcl hd hrun
  rcases hcl.wellFormed.front_of_statement with hc | ⟨id, hc⟩ | hc | hk
  · rw [statement_of_declaring hc] at hrun
    have hcl₁ := hcl.of_rest hc
    rcases bind_eq_error.mp hrun with h₁ | ⟨name, c₁, h₁, hrun⟩
    · obtain ⟨hname, rfl, rfl⟩ := take_eq_error.mp h₁
      refine ⟨[.declaring c.current.place], Cursor.passes_advanced hc, .inl ⟨⟨_, rfl⟩, ?_, _,
        .declaration c.current.place ⟨"x", .start⟩ .start someExpression,
        within_someExpression room, rfl⟩⟩
      intro c₁ v _ hc₁
      have hc₂ := Cursor.rest_advanced hc₁
      rw [← Cursor.current_eq hc₂] at hname ⊢
      exact ⟨_, _, by rw [statement_of_declaring hc₁, bind_of_error (take_of_ne hname)], rfl⟩
    · obtain ⟨hname, rfl, rfl⟩ := take_eq_ok.mp h₁
      obtain ⟨id, hc₁⟩ := Cursor.exists_name hname
      have hp := (Cursor.passes_advanced hc).trans (Cursor.passes_advanced hc₁)
      rw [Cursor.current_eq hc₁] at hrun
      refine Refused.through 0 hp ?_ ?_ (assigned_refuses h _ (hcl₁.of_rest hc₁) hd hrun)
      · intro c₂ v hd₂ hc₂
        have hc₃ := Cursor.rest_advanced hc₂
        refine ⟨c₂.advanced.advanced, hd₂, Cursor.rest_advanced hc₃, fun e c' h => ⟨c', ?_⟩⟩
        rw [statement_of_declaring hc₂, bind_of_ok (take_of_rest .identifier hc₃ rfl)]
        exact h
      · rintro k _ - ⟨q, p, hp, rfl⟩
        exact ⟨[], .declaration c.current.place id q p, hp, by simp [Clause.yield]⟩
  · rw [statement_of_name hc] at hrun
    refine Refused.through 0 (Cursor.passes_advanced hc) ?_ ?_
      (assigned_refuses h _ (hcl.of_rest hc) hd hrun)
    · intro c₁ v hd₁ hc₁
      refine ⟨c₁.advanced, hd₁, Cursor.rest_advanced hc₁, fun e c' h => ⟨c', ?_⟩⟩
      rw [statement_of_name hc₁]
      exact h
    · rintro k _ - ⟨q, p, hp, rfl⟩
      exact ⟨[], .assignment id q p, hp, by simp [Clause.yield]⟩
  · rw [statement_of_printing hc] at hrun
    rcases bind_eq_error.mp hrun with h₁ | ⟨_, _, _, h₁⟩
    · refine Refused.through 0 (Cursor.passes_advanced hc) ?_ ?_ (h.refuses (hcl.of_rest hc) hd h₁)
      · intro c₁ v hd₁ hc₁
        refine ⟨c₁.advanced, hd₁, Cursor.rest_advanced hc₁, fun e c' h => ⟨c', ?_⟩⟩
        rw [statement_of_printing hc₁, bind_of_error h]
      · rintro k _ - ⟨p, hp, rfl⟩
        exact ⟨[], .print c.current.place p, hp, by simp [Clause.yield]⟩
    · cases h₁
  · rw [statement_of_not_mem hk] at hrun
    cases hrun
    refine ⟨[], .refl c, .inl ⟨⟨_, rfl⟩, fun c₁ v _ hc₁ => ?_, _, .print .start someExpression,
      within_someExpression room, rfl⟩⟩
    rw [← Cursor.current_eq hc₁] at hk ⊢
    exact ⟨_, c₁, statement_of_not_mem hk, rfl⟩

/-! ### Programs -/

/-- A token does not continue the last of the statements before it. -/
def Stops (ss : List Clause) (k : Kind) : Prop := ∀ s ∈ ss.getLast?, k ∉ s.extenders

theorem stops_nil (k : Kind) : Stops [] k := fun _ hs => nomatch hs

theorem Stops.of_cons {s : Clause} {ss : List Clause} {v : List Token}
    (h : Stops (s :: ss) (headKind v)) :
    headKind (ss.flatMap Clause.yield ++ v) ∉ s.extenders ∧ Stops ss (headKind v) := by
  cases ss with
  | nil => exact ⟨h s rfl, stops_nil _⟩
  | cons s' ss =>
    refine ⟨?_, fun s'' hs => h s'' (by rw [List.getLast?_cons_cons]; exact hs)⟩
    rw [List.flatMap_cons, List.append_assoc]
    exact s.not_mem_extenders (Clause.not_mem_expression (s'.headKind_mem _))

theorem Stops.cons {s : Clause} {ss : List Clause} {c c' : Cursor}
    (h : Stops ss c'.current.kind) (hstop : headKind c.rest ∉ s.extenders)
    (hp : c.Passes (ss.flatMap Clause.yield) c') : Stops (s :: ss) c'.current.kind := by
  cases ss with
  | nil =>
    intro s' hs'
    obtain rfl : s = s' := Option.some.inj hs'
    rw [hp.rest] at hstop
    rw [c'.kind_current]
    exact hstop
  | cons s' ss => rwa [Stops, List.getLast?_cons_cons]

theorem statementsWithin_error (hexpr : expr.Derives depth .expression room) :
    ∀ (n : Nat) {c c' : Cursor} {e : Fault}, c.WellFormed → c.depth = depth →
      statementsWithin (statement expr) n c = .error e c' →
        ∃ (ss : List Clause) (c₁ : Cursor), Within room (ss.flatMap Clause.nestings) ∧
          c.Passes (ss.flatMap Clause.yield) c₁ ∧ Stops ss c₁.current.kind ∧
            c₁.current.kind ≠ .finish ∧ statement expr c₁ = .error e c' := by
  intro n
  induction n with
  | zero => intro c c' e _ _ h; cases h
  | succ n ih =>
    intro c c' e hwf hd h
    by_cases hk : c.current.kind = .finish
    · rw [statementsWithin_of_finish hk] at h
      cases h
    · rw [statementsWithin_of_ne hk] at h
      rcases bind_eq_error.mp h with h₁ | ⟨a, c₁, h₁, hrun⟩
      · exact ⟨[], c, by simp [Within], .refl c, stops_nil _, hk, h₁⟩
      · rcases bind_eq_error.mp hrun with h₂ | ⟨_, _, _, h₂⟩
        · obtain ⟨s, rfl, hs, hp, hstop⟩ := statement_derives hexpr hwf hd h₁
          obtain ⟨ss, c₂, hss, hps, hstops, hne, h₃⟩ := ih (hwf.of_passes hp) (hp.depth.trans hd) h₂
          exact ⟨s :: ss, c₂, within_append.mpr ⟨hs, hss⟩, hp.trans hps, hstops.cons hstop hps, hne,
            h₃⟩
        · cases h₂

theorem statementsWithin_enters (hexpr : expr.Accepts depth .expression room) :
    ∀ (ss : List Clause) {n : Nat} {c : Cursor} {v : List Token},
      Within room (ss.flatMap Clause.nestings) → c.depth = depth →
        c.rest = ss.flatMap Clause.yield ++ v → Stops ss (headKind v) → headKind v ≠ .finish →
          (ss.flatMap Clause.yield).length < n → ∃ c₁, c₁.depth = depth ∧ c₁.rest = v ∧
            ∀ e c', statement expr c₁ = .error e c' →
              ∃ c'', statementsWithin (statement expr) n c = .error e c''
  | [], n, c, v, _, hd, hc, _, hne, hlen => by
    obtain ⟨n, rfl⟩ : ∃ n', n = n' + 1 := ⟨n - 1, by omega⟩
    have hk : c.current.kind ≠ .finish := by
      rw [c.kind_current, hc]
      exact hne
    refine ⟨c, hd, hc, fun e c' h => ⟨c', ?_⟩⟩
    rw [statementsWithin_of_ne hk, bind_of_error h]
  | s :: ss, n, c, v, hn, hd, hc, hstops, hne, hlen => by
    rw [List.flatMap_cons, List.append_assoc] at hc
    rw [List.flatMap_cons, within_append] at hn
    rw [List.flatMap_cons, List.length_append] at hlen
    obtain ⟨n, rfl⟩ : ∃ n', n = n' + 1 := ⟨n - 1, by omega⟩
    have hpos : 0 < s.yield.length := List.length_pos_iff.mpr s.yield_ne_nil
    have hk : c.current.kind ≠ .finish := by
      rw [c.kind_current, hc]
      exact s.headKind_ne_finish _
    obtain ⟨c₁, h₁, hp₁⟩ := statement_accepts hexpr s hn.1 hd hc hstops.of_cons.1
    obtain ⟨c₂, hd₂, hc₂, hfail⟩ := statementsWithin_enters hexpr ss (n := n) hn.2
      (hp₁.depth.trans hd) (hp₁.rest_eq hc) hstops.of_cons.2 hne (by omega)
    refine ⟨c₂, hd₂, hc₂, fun e c' h => ?_⟩
    obtain ⟨c'', h''⟩ := hfail e c' h
    refine ⟨c'', ?_⟩
    rw [statementsWithin_of_ne hk, bind_of_ok h₁, bind_of_error h'']

/-- A statement does not fail whatever comes. -/
theorem statement_not_failsOn_nil (hexpr : expr.Accepts depth .expression (room + 1)) :
    ¬ (statement expr).FailsOn depth [] fun _ => True := by
  intro hfails
  let c : Cursor := ⟨(Clause.print .start someExpression).yield, .start, 0, depth⟩
  obtain ⟨e, c', he, -⟩ := hfails (c := c) rfl rfl
  obtain ⟨c'', hok, -⟩ := statement_accepts hexpr (.print .start someExpression) (c := c)
    (within_someExpression room) rfl (List.append_nil _).symm
    (Clause.not_mem_extenders _ (by decide))
  rw [hok] at he
  cases he

theorem program_failsOn (hexpr : expr.Accepts depth .expression room) (first : Clause)
    (ss : List Clause) (hfirst : Within room first.nestings)
    (hss : Within room (ss.flatMap Clause.nestings)) {us : List Token} {k : Kind}
    (hhead : ∀ v, headKind (us ++ v) = k) (hstops : Stops (first :: ss) k) (hne : k ≠ .finish)
    {faults : Fault → Prop} (hfails : (statement expr).FailsOn depth us faults) :
    (program (statement expr)).FailsOn depth ((first :: ss).flatMap Clause.yield ++ us) faults := by
  intro c v hd hc
  rw [← hhead v] at hstops hne
  rw [List.append_assoc, List.flatMap_cons, List.append_assoc] at hc
  obtain ⟨c₁, h₁, hp₁⟩ := statement_accepts hexpr first hfirst hd hc hstops.of_cons.1
  have hc₁ := hp₁.rest_eq hc
  have hlen : (ss.flatMap Clause.yield).length < c₁.rest.length := by
    have hpos : us ++ v ≠ [] := by
      intro hnil
      rw [hnil] at hne
      exact hne rfl
    have := List.length_pos_iff.mpr hpos
    rw [hc₁, List.length_append]
    omega
  obtain ⟨c₂, hd₂, hc₂, hfail⟩ := statementsWithin_enters hexpr ss hss (hp₁.depth.trans hd) hc₁
    hstops.of_cons.2 hne hlen
  obtain ⟨e, c', he, hfault⟩ := hfails hd₂ hc₂
  obtain ⟨c'', h''⟩ := hfail e c' he
  exact ⟨e, c'', by rw [program_eq, bind_of_ok h₁, remaining_bind, bind_of_error h''], hfault⟩

theorem program_refuses (h : expr.Parses depth .expression (room + 1)) :
    (program (statement expr)).Refuses depth (room + 1) Derivation.Language := by
  intro c c' e hcl hd hrun
  rw [program_eq] at hrun
  rcases bind_eq_error.mp hrun with h₁ | ⟨a, c₁, h₁, hrun⟩
  · refine Refused.through 0 (.refl c) ?_ ?_ (statement_refuses h hcl hd h₁)
    · intro c₁ v hd₁ hc₁
      exact ⟨c₁, hd₁, hc₁, fun e c' h => ⟨c', by rw [program_eq, bind_of_error h]⟩⟩
    · rintro k _ - ⟨s, hs, rfl⟩
      exact ⟨[], ⟨s, []⟩, by simpa [Derivation.nestings, Derivation.clauses] using hs,
        by simp [Derivation.yield, Derivation.clauses]⟩
  · obtain ⟨first, rfl, hfirst, hp₁, hstop⟩ := statement_derives h.derives hcl.wellFormed hd h₁
    rw [remaining_bind] at hrun
    rcases bind_eq_error.mp hrun with h₂ | ⟨_, _, _, h₂⟩
    · have hcl₁ := hcl.of_passes hp₁
      obtain ⟨ss, c₂, hss, hps, hstops, hne, h₃⟩ := statementsWithin_error h.derives _
        hcl₁.wellFormed (hp₁.depth.trans hd) h₂
      have hp₂ : c.Passes ((first :: ss).flatMap Clause.yield) c₂ := hp₁.trans hps
      have hall : Stops (first :: ss) c₂.current.kind := hstops.cons hstop hps
      obtain ⟨us, hp, hcase⟩ := statement_refuses h (hcl₁.of_passes hps) (hp₂.depth.trans hd) h₃
      have hviable : ∀ {k : Nat} {u : List Token}, room + 1 ≤ k → Clause.Language k (us ++ u) →
          Derivation.Language k ((first :: ss).flatMap Clause.yield ++ us ++ u) := by
        rintro k u hle ⟨s, hs, hy⟩
        refine ⟨⟨first, ss ++ [s]⟩, ?_, ?_⟩
        · simp only [Derivation.nestings, Derivation.clauses, List.flatMap_cons,
            List.flatMap_append, List.flatMap_nil, List.append_nil, within_append]
          exact ⟨hfirst.mono hle, hss.mono hle, hs⟩
        · simp [Derivation.yield, Derivation.clauses, hy]
      refine ⟨(first :: ss).flatMap Clause.yield ++ us, hp₂.trans hp, ?_⟩
      rcases hcase with ⟨hwhat, hfails, u, hu⟩ | ⟨heq, hfails, k, u, hle, hu⟩
      · refine .inl ⟨hwhat, ?_, u, hviable le_rfl hu⟩
        rw [List.append_assoc]
        exact program_failsOn h.accepts first ss hfirst hss hp.headKind_append hall hne hfails
      · refine .inr ⟨heq, ?_, k, u, hle, hviable hle hu⟩
        cases us with
        | nil => exact absurd hfails (statement_not_failsOn_nil h.accepts)
        | cons t us =>
          have hhead : ∀ v, headKind (t :: us ++ v) = c₂.current.kind := fun v => by
            rw [Cursor.current_eq hp.rest]
            rfl
          exact program_failsOn h.accepts first ss hfirst hss hhead hall hne hfails
    · cases h₂

end Statements

end Rule

/-! ### Texts -/

/-- Some tokens of lexemes, with the end of the text behind them, complete others to a program. -/
def Completable (limit : Nat) (ts : List Token) : Prop :=
  ∃ us p program, (∀ t ∈ us, t.Proper) ∧
    Program.ofTokensWithin limit (ts ++ us ++ [.finish p]) = .ok program

theorem Derivation.Language.completable {limit : Nat} {ts us : List Token}
    (h : Derivation.Language limit (ts ++ us)) : Completable limit ts := by
  obtain ⟨d, hn, hy⟩ := h
  refine ⟨us, .start, d.tree, fun t ht => d.proper t ?_, ?_⟩
  · rw [hy]
    exact List.mem_append_right _ ht
  · rw [← hy]
    exact d.accepted hn rfl

theorem Derivation.Language.kind_ne_finish {limit : Nat} {ts us : List Token}
    (h : Derivation.Language limit (ts ++ us)) : ∀ t ∈ ts, t.kind ≠ .finish := by
  obtain ⟨d, -, hy⟩ := h
  intro t ht
  refine (d.proper t ?_).kind_ne_finish
  rw [hy]
  exact List.mem_append_left _ ht

theorem Program.ofTokensWithin_of_failsOn {limit : Nat} {ts : List Token} {faults : Fault → Prop}
    (h : (Rule.program (Rule.statement (Rule.expression limit))).FailsOn 0 ts faults)
    (v : List Token) : ∃ e, Program.ofTokensWithin limit (ts ++ v) = .error e ∧ faults e := by
  obtain ⟨e, c', he, hfault⟩ := h (c := .ofTokens (ts ++ v)) rfl rfl
  exact ⟨e, by rw [ofTokensWithin, he], hfault⟩

/-- What a failure on the tokens of a text says about the program. -/
theorem Program.refused_of_error {source : String} {limit : Nat} (hlimit : 1 ≤ limit)
    (hclean : ∀ t ∈ tokensOf source, t.kind ≠ .unknown) {fault : Fault}
    (h : Program.ofTokensWithin limit (tokensOf source) = .error fault) :
    ∃ c', (Rule.program (Rule.statement (Rule.expression limit))).Refused 0 limit
      Derivation.Language (.ofTokens (tokensOf source)) fault c' := by
  obtain ⟨room, rfl⟩ : ∃ room, limit = room + 1 := ⟨limit - 1, by omega⟩
  rw [ofTokensWithin] at h
  split at h
  · cases h
  · next e c' hrun =>
    cases h
    exact ⟨c', Rule.program_refuses (Rule.parses_expression (room + 1))
      ⟨fun t ht => wellFormed_of_mem_tokensOf ht, hclean⟩ rfl hrun⟩

/-- **Errors are reported where the text becomes hopeless.** If a text is no program, its tokens
fall into those before a token, that token and those behind it, and the fault is located at that
token alone. If something else was expected there, the tokens before it can be completed to a
program, and all lists of tokens that begin with them and the token have this fault. If a level of
nesting is too many, the tokens before it cannot be completed within the limit, but they can within
a larger one. -/
theorem Program.correct_prefix (source : String) (limit : Nat) (hlimit : 1 ≤ limit)
    (hclean : ∀ t ∈ tokensOf source, t.kind ≠ .unknown) (fault : Fault)
    (h : Program.ofTokensWithin limit (tokensOf source) = .error fault) :
    ∃ before t after, tokensOf source = before ++ t :: after ∧
      (∀ t' ∈ before ++ after, t'.place ≠ t.place) ∧
      ((∃ what, fault = .refused (.expected what t) t.place ∧ Completable limit before ∧
          ∀ v, Program.ofTokensWithin limit (before ++ t :: v) = .error fault) ∨
        (fault = .refused .nestedTooDeeply t.place ∧
          (∀ v p, Program.ofTokensWithin limit (before ++ v) ≠ .ok p) ∧
          ∃ limit' > limit, Completable limit' before)) := by
  obtain ⟨c', before, hp, hcase⟩ := refused_of_error hlimit hclean h
  have hsource : tokensOf source = before ++ c'.rest := hp.rest
  have hbefore : ∀ t ∈ before, t.kind ≠ .finish := by
    rcases hcase with ⟨-, -, u, hu⟩ | ⟨-, -, k, u, -, hu⟩
    · exact hu.kind_ne_finish
    · exact hu.kind_ne_finish
  obtain ⟨t, after, hrest⟩ : ∃ t after, c'.rest = t :: after := by
    -- the end of the text is not among the tokens before
    obtain ⟨e, he, hk⟩ := exists_finish_mem_tokensOf source
    rw [hsource] at he
    rcases List.mem_append.mp he with he | he
    · exact absurd hk (hbefore e he)
    · exact List.exists_cons_of_ne_nil (List.ne_nil_of_mem he)
  rw [hrest] at hsource
  rw [Cursor.current_eq hrest] at hcase
  refine ⟨before, t, after, hsource, place_ne_of_tokensOf hsource, ?_⟩
  rcases hcase with ⟨⟨what, hwhat⟩, hfails, u, hu⟩ | ⟨heq, hfails, k, u, hle, hu⟩
  · have hunknown : t.kind ≠ .unknown := by
      refine hclean t ?_
      rw [hsource]
      exact List.mem_append_right _ List.mem_cons_self
    rw [Token.refusal, if_neg hunknown] at hwhat
    refine .inl ⟨what, hwhat, hu.completable, fun v => ?_⟩
    obtain ⟨e, he, rfl⟩ := ofTokensWithin_of_failsOn hfails v
    rw [List.append_assoc, List.singleton_append] at he
    exact he
  · refine .inr ⟨heq, fun v p hok => ?_, k + 1, by omega, ?_⟩
    · obtain ⟨e, he, -⟩ := ofTokensWithin_of_failsOn hfails v
      rw [he] at hok
      cases hok
    · obtain ⟨d, hn, hy⟩ := hu
      exact Derivation.Language.completable ⟨d, hn.mono (by omega), hy⟩

/-- A parenthesis that is left open is missed at the word that begins the next statement. -/
theorem Program.correct_prefix_of_open_group :
    ∃ before after, tokensOf "print (1 print 2" =
        before ++ ⟨.printWord, "print", ⟨1, 10⟩⟩ :: after ∧ Completable 2 before ∧
      ∀ v, Program.ofTokensWithin 2 (before ++ ⟨.printWord, "print", ⟨1, 10⟩⟩ :: v) =
        .error (.refused (.expected "')'" ⟨.printWord, "print", ⟨1, 10⟩⟩) ⟨1, 10⟩) := by
  obtain ⟨before, t, after, hsource, -, hcase⟩ := Program.correct_prefix "print (1 print 2" 2
    (by decide) (by decide +kernel)
    (.refused (.expected "')'" ⟨.printWord, "print", ⟨1, 10⟩⟩) ⟨1, 10⟩) (by decide +kernel)
  rcases hcase with ⟨what, heq, hbefore, hall⟩ | ⟨heq, -⟩
  · cases heq
    exact ⟨before, after, hsource, hbefore, hall⟩
  · cases heq

end AelSyntax
