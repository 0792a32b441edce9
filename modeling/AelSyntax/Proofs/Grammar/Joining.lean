import AelSyntax.Proofs.Grammar.Location
import AelSyntax.Proofs.Grammar.Lookahead
import AelSyntax.Proofs.Grammar.Moving
import AelSyntax.Proofs.Token.Joining
import Mathlib.Tactic.Common

/-! # Programs joined by a newline

Behind a program, where a statement begins, the reading goes on as if it began there
(`Derivation.ofTokensWithin_append`): nothing of a statement is left open at its end. What is read
behind a newline is what would be read at the start of a text, further down. So two programs with a
newline between them are one, with the statements of both, and a text that is no program is none
behind another one for the same reason (`Program.ofText_join`). -/

namespace AelSyntax

/-! ### Behind the statements of a program -/

/-- Whether a statement or more of them come next, the next token begins one. -/
theorem headKind_clauses_mem (ss : List Clause) {v : List Token}
    (hv : headKind v ∈ Clause.starters) :
    headKind (ss.flatMap Clause.yield ++ v) ∈ Clause.starters := by
  cases ss with
  | nil => exact hv
  | cons s ss =>
    rw [List.flatMap_cons, List.append_assoc]
    exact s.headKind_mem _

namespace Rule

variable {depth room : Nat} {expr : Rule Expr}

/-- Behind some statements, the reading goes on where the next one begins. -/
theorem statementsWithin_goes_on (hexpr : expr.Accepts depth .expression room) {v : List Token}
    (hv : headKind v ∈ Clause.starters) : ∀ (ss : List Clause) {n : Nat} {c : Cursor},
      Within room (ss.flatMap Clause.nestings) → c.depth = depth →
        c.rest = ss.flatMap Clause.yield ++ v → c.rest.length ≤ n →
          ∃ (d : Cursor) (m : Nat), d.rest = v ∧ d.depth = depth ∧ v.length ≤ m ∧
            statementsWithin (statement expr) n c = (statementsWithin (statement expr) m >>=
              fun more => pure (ss.map Clause.tree ++ more)) d
  | [], n, c, _, hd, hc, hn => by
    rw [hc] at hn
    refine ⟨c, n, hc, hd, hn, ?_⟩
    simp
  | s :: ss, n, c, hroom, hd, hc, hn => by
    rw [List.flatMap_cons, List.append_assoc] at hc
    rw [List.flatMap_cons, within_append] at hroom
    have hpos : 0 < s.yield.length := List.length_pos_iff.mpr s.yield_ne_nil
    rw [hc, List.length_append] at hn
    obtain ⟨n, rfl⟩ : ∃ n', n = n' + 1 := ⟨n - 1, by omega⟩
    have hk : c.current.kind ≠ .finish := by
      rw [c.kind_current, hc]
      exact s.headKind_ne_finish _
    obtain ⟨c₁, h₁, hp₁⟩ := statement_accepts hexpr s hroom.1 hd hc
      (s.not_mem_extenders (Clause.not_mem_expression (headKind_clauses_mem ss hv)))
    have hc₁ := hp₁.rest_eq hc
    obtain ⟨d, m, hrest, hdepth, hm, hmore⟩ := statementsWithin_goes_on hexpr hv ss (n := n) hroom.2
      (hp₁.depth.trans hd) hc₁ (by rw [hc₁]; omega)
    refine ⟨d, m, hrest, hdepth, hm, ?_⟩
    rw [statementsWithin_of_ne hk, bind_of_ok h₁, bind_of_eq hmore]
    simp

theorem program_goes_on (hexpr : expr.Accepts depth .expression room) {v : List Token}
    (hv : headKind v ∈ Clause.starters) (d : Derivation) {c : Cursor}
    (hn : Within room d.nestings) (hd : c.depth = depth) (hc : c.rest = d.yield ++ v) :
    ∃ (c₁ : Cursor) (m : Nat), c₁.rest = v ∧ c₁.depth = depth ∧ v.length ≤ m ∧
      program (statement expr) c = (statementsWithin (statement expr) m >>= fun more =>
        pure ⟨d.tree.statements ++ more, d.tree.place⟩) c₁ := by
  rw [Derivation.yield, Derivation.clauses, List.flatMap_cons, List.append_assoc] at hc
  rw [Derivation.nestings, Derivation.clauses, List.flatMap_cons, within_append] at hn
  obtain ⟨c₁, h₁, hp₁⟩ := statement_accepts hexpr d.first hn.1 hd hc
    (d.first.not_mem_extenders (Clause.not_mem_expression (headKind_clauses_mem d.more hv)))
  obtain ⟨c₂, m, hrest, hdepth, hm, hmore⟩ := statementsWithin_goes_on hexpr hv d.more hn.2
    (hp₁.depth.trans hd) (hp₁.rest_eq hc) le_rfl
  refine ⟨c₂, m, hrest, hdepth, hm, ?_⟩
  have hplace : c.current.place = d.first.tree.place := by
    rw [Cursor.current, hc]
    cases d.first <;> rfl
  rw [program_eq, bind_of_ok h₁, remaining_bind, bind_of_eq hmore, hplace]
  simp [Derivation.tree, Derivation.clauses]

end Rule

/-- **Behind a program the reading goes on as at the start**, where a statement begins. -/
theorem Derivation.ofTokensWithin_append (d : Derivation) {limit : Nat}
    (hn : Within limit d.nestings) {v : List Token} (hv : headKind v ∈ Clause.starters)
    (hstop : 0 < (Program.stop limit v).rest.length) :
    Program.ofTokensWithin limit (d.yield ++ v) = (Program.ofTokensWithin limit v).map
      fun q => ⟨d.tree.statements ++ q.statements, d.tree.place⟩ := by
  obtain ⟨c₁, m, hrest, hdepth, hm, hjoined⟩ := Rule.program_goes_on
    (Rule.accepts_expression limit) hv d (c := .ofTokens (d.yield ++ v)) hn rfl rfl
  have hexpr := Rule.local_expression (v := []) (w := []) limit
  have hk : (Cursor.ofTokens v).current.kind ≠ .finish := by
    rw [Cursor.kind_current]
    intro hfinish
    rw [show (Cursor.ofTokens v).rest = v from rfl] at hfinish
    rw [hfinish] at hv
    exact absurd hv (by decide)
  have hne : v ≠ [] := by
    rintro rfl
    exact absurd hv (by decide)
  have hagree := Rule.agree_program (Rule.local_statement hexpr)
    (Rule.advances_statement hexpr.shrinks) (c := .ofTokens v) (d := c₁) (n := m)
    ⟨v, (List.append_nil v).symm, by rw [hrest, List.append_nil], hdepth⟩ hk
    (by rw [hrest]; exact hm) (List.length_pos_iff.mpr hne)
  obtain ⟨c₂, -, hsteps⟩ := hagree hstop
  rw [Program.ofTokensWithin_eq, Program.ofTokensWithin_eq, hjoined]
  cases hrun : Rule.program (Rule.statement (Rule.expression limit)) (.ofTokens v) with
  | ok q c₃ =>
    rw [hrun] at hsteps
    obtain ⟨ss, c₄, hss, hq⟩ := Rule.bind_eq_ok.mp hsteps
    obtain ⟨rfl, -⟩ := Rule.pure_eq_ok.mp hq
    rw [Rule.bind_of_ok hss]
    rfl
  | error e c₃ =>
    rw [hrun] at hsteps
    rcases Rule.bind_eq_error.mp hsteps with hss | ⟨_, _, _, h⟩
    · rw [Rule.bind_of_error hss]
      rfl
    · cases h

namespace Program

variable {limit : Nat}

/-! ### Moved tokens -/

/-- Moved tokens are a program as the tokens are, and it is moved. -/
theorem ofTokensWithin_moved (f : Place → Place) {ts : List Token}
    (hstop : 0 < (stop limit ts).rest.length) :
    0 < (stop limit (ts.map (Token.moved f))).rest.length ∧
      ofTokensWithin limit (ts.map (Token.moved f)) =
        match ofTokensWithin limit ts with
        | .ok p => .ok (p.moved f)
        | .error e => .error (e.moved f) := by
  have hmoves := Rule.moves_program (f := f) limit (.ofTokens ts)
  have hend : Rule.endOf (Rule.program (Rule.statement (Rule.expression limit))
      ((Cursor.ofTokens ts).moved f)) = (stop limit ts).moved f := by
    rw [hmoves, stop]
    cases Rule.program (Rule.statement (Rule.expression limit)) (.ofTokens ts) <;> rfl
  have hlen : 0 < ((stop limit ts).moved f).rest.length := by
    show 0 < (List.map _ _).length
    rw [List.length_map]
    exact hstop
  rw [← hend] at hlen
  have hshares : ((Cursor.ofTokens ts).moved f).Shares [] [] (.ofTokens (ts.map (Token.moved f))) :=
    ⟨_, (List.append_nil _).symm, (List.append_nil _).symm, rfl⟩
  obtain ⟨c, ⟨us, hus, hc, -⟩, hsteps⟩ := (Rule.local_program limit).agrees hshares hlen
  refine ⟨?_, ?_⟩
  · rw [stop, hsteps, Rule.endOf_endingAt]
    rw [hus] at hlen
    rw [hc]
    exact hlen
  · rw [ofTokensWithin_eq, hsteps, Rule.outcome_endingAt, hmoves, ofTokensWithin_eq]
    cases Rule.program (Rule.statement (Rule.expression limit)) (.ofTokens ts) <;> rfl

/-! ### The main statement -/

theorem length_stop_pos (limit : Nat) (source : String) :
    0 < (stop limit (tokensOf source)).rest.length := by
  obtain ⟨before, t, after, -, hrest, -⟩ := exists_stop limit source
  rw [hrest, List.length_cons]
  omega

/-- Behind a program and a newline a text is read as it is alone, but further down. -/
theorem ofTokensWithin_join {a b : String} {p : Program}
    (hp : ofTokensWithin limit (tokensOf a) = .ok p)
    (hb : headKind (tokensOf b) ∈ Clause.starters) :
    ofTokensWithin limit (tokensOf (a ++ "\n" ++ b)) =
      match ofTokensWithin limit (tokensOf b) with
      | .ok q => .ok ⟨p.statements ++ q.statements.map (Statement.moved (Place.below a)), p.place⟩
      | .error e => .error (e.moved (Place.below a)) := by
  obtain ⟨ts, e, hts, hne⟩ := tokensOf_eq_append_finish a
  have hjoin := tokensOf_join a b
  rw [hts, List.dropLast_concat] at hjoin
  obtain ⟨d, rest, rfl, hn, hsource, hrest⟩ := Derivation.of_accepted
    (fun _ ht => wellFormed_of_mem_tokensOf ht) hp
  obtain rfl : d.yield = ts := by
    rw [hts] at hsource
    exact yield_eq_of_append_eq hne (fun t ht => (d.proper t ht).kind_ne_finish) rfl hrest hsource
  obtain ⟨hstop, hmoved⟩ := ofTokensWithin_moved (Place.below a) (length_stop_pos limit b)
  have hhead : headKind ((tokensOf b).map (Token.moved (Place.below a))) ∈ Clause.starters := by
    rw [headKind_map_moved]
    exact hb
  rw [hjoin, d.ofTokensWithin_append hn hhead hstop, hmoved]
  cases ofTokensWithin limit (tokensOf b) <;> rfl

/-- A text that is refused before its end is refused in the same way with more behind it. -/
theorem refused_join {a : String} (b : String) {reason : Refusal} {t : Token} (ht : t ∈ tokensOf a)
    (hk : t.kind ≠ .finish)
    (h : ofTokensWithin limit (tokensOf a) = .error (.refused reason t.place)) :
    ofTokensWithin limit (tokensOf (a ++ "\n" ++ b)) = .error (.refused reason t.place) := by
  obtain ⟨ts, e, hts, -⟩ := tokensOf_eq_append_finish a
  have hjoin := tokensOf_join a b
  rw [hts, List.dropLast_concat] at hjoin
  obtain ⟨before, after, hsource, hrest, -⟩ := stop_of_place ht h
  -- something follows the token, since it is not the last one
  have hafter : after ≠ [] := by
    rintro rfl
    rw [hts] at hsource
    obtain ⟨-, hlast⟩ := List.append_inj' hsource rfl
    obtain ⟨rfl, -⟩ := List.cons.inj hlast
    exact hk rfl
  have hlen : [Token.finish e].length < (stop limit (tokensOf a)).rest.length := by
    have hpos := List.length_pos_iff.mpr hafter
    rw [hrest, List.length_singleton, List.length_cons]
    omega
  have hshares : (Cursor.ofTokens (tokensOf a)).Shares [.finish e]
      ((tokensOf b).map (Token.moved (Place.below a))) (.ofTokens (tokensOf (a ++ "\n" ++ b))) :=
    ⟨ts, hts, hjoin, rfl⟩
  rw [← h]
  exact (ofTokensWithin_of_shares hshares hlen).trans (ofTokensWithin_eq _ _).symm

/-- **Two texts with a newline between them.** Let the first be a program. Behind it, where the
second begins a statement, the second is read as it is alone, but further down: if it is a program,
the two are one with the statements of both, and if not, it is refused in the same way. A text that
is refused before its end is refused in the same way whatever comes behind it. -/
theorem ofText_join (a b : String) :
    (∀ p, ofText a = .ok p → headKind (tokensOf b) ∈ Clause.starters →
      (∀ q, ofText b = .ok q → ofText (a ++ "\n" ++ b) =
        .ok ⟨p.statements ++ q.statements.map (Statement.moved (Place.below a)), p.place⟩) ∧
      (∀ fault, ofText b = .error fault → ∃ reason reason' place,
        fault = .refused reason place ∧
          ofText (a ++ "\n" ++ b) = .error (.refused reason' (place.below a)) ∧
          reason'.family = reason.family ∧ reason'.description = reason.description)) ∧
    (∀ reason, ∀ t ∈ tokensOf a, t.kind ≠ .finish →
      ofText a = .error (.refused reason t.place) →
        ofText (a ++ "\n" ++ b) = .error (.refused reason t.place)) := by
  refine ⟨fun p hp hb => ?_, fun reason t ht hk h => refused_join b ht hk h⟩
  have hjoin := ofTokensWithin_join hp hb
  refine ⟨fun q hq => ?_, fun fault hfault => ?_⟩
  · rw [ofText, ofTokens] at hq ⊢
    rw [hjoin, hq]
  · obtain ⟨_, t, _, reason, -, -, -, -, rfl⟩ := exists_refused hfault
    refine ⟨reason, reason.moved (Place.below a), t.place, rfl, ?_,
      reason.family_moved _, reason.description_moved _⟩
    rw [ofText, ofTokens] at hfault ⊢
    rw [hjoin, hfault]
    rfl

/-- A comment at the end of a text does not reach into the text behind it. -/
theorem ofText_join_of_comment : ofText ("let x = y // z" ++ "\n" ++ "print x") =
    .ok ⟨[.declaration "x" (.name ⟨"y", ⟨1, 9⟩⟩) ⟨1, 1⟩, .print (.name ⟨"x", ⟨2, 7⟩⟩) ⟨2, 1⟩],
      ⟨1, 1⟩⟩ := by
  have h := ((ofText_join "let x = y // z" "print x").1
    ⟨[.declaration "x" (.name ⟨"y", ⟨1, 9⟩⟩) ⟨1, 1⟩], ⟨1, 1⟩⟩ (by decide +kernel)
    (by decide +kernel)).1 ⟨[.print (.name ⟨"x", ⟨1, 7⟩⟩) ⟨1, 1⟩], ⟨1, 1⟩⟩ (by decide +kernel)
  exact h.trans (by decide +kernel)

end Program

end AelSyntax
