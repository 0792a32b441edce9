import AelSyntax.Proofs.Grammar.Recognition
import AelSyntax.Proofs.Grammar.Stopping
import AelSyntax.Proofs.Token.Order
import AelSyntax.Proofs.Token.Standing
import Mathlib.Tactic.Common

/-! # Faults of a text are located

The tokens of a text are well formed, so reading them as a program fails at a token of the text and
in no other way (`Program.ofText_located`). The tokens before are those of lexemes. Hence it makes
little difference whether stray characters are refused at once or where the grammar comes to them:
the second refusal is the first one, or something else is wrong before (`Program.stray_agree`). -/

namespace AelSyntax

/-! ### Where the reading of a text stops -/

namespace Program

/-- The cursor at which the reading of a list of tokens ends, with or without success. -/
def stop (limit : Nat) (ts : List Token) : Cursor :=
  Rule.endOf (Rule.program (Rule.statement (Rule.expression limit)) (.ofTokens ts))

variable {limit : Nat} {ts : List Token}

theorem crosses_stop (limit : Nat) (ts : List Token) :
    (Cursor.ofTokens ts).Crosses (stop limit ts) :=
  (Rule.orderly_program limit).crosses _

/-- On well-formed tokens the fault is that of the token where the reading stops. -/
theorem stop_blames (hwf : ∀ t ∈ ts, t.WellFormed) {fault : Fault}
    (h : ofTokensWithin limit ts = .error fault) : (stop limit ts).Blames fault := by
  have hends := Rule.orderly_program limit (.ofTokens ts)
  rw [ofTokensWithin] at h
  rw [stop]
  split at h
  · cases h
  · next e c' hrun =>
    cases h
    rw [hrun] at hends ⊢
    obtain ⟨-, hblame | ⟨-, hill⟩⟩ := hends
    · exact hblame
    · exact absurd hwf hill

/-- On well-formed tokens a program is read up to the end of the text. -/
theorem headKind_stop (hwf : ∀ t ∈ ts, t.WellFormed) {p : Program}
    (h : ofTokensWithin limit ts = .ok p) : headKind (stop limit ts).rest = .finish := by
  rw [ofTokensWithin] at h
  rw [stop]
  split at h
  · next a c' hrun =>
    rw [hrun]
    obtain ⟨-, -, -, -, hend⟩ := Rule.program_derives (Rule.derives_expression limit)
      (c := .ofTokens ts) hwf rfl hrun
    exact hend
  · cases h

end Program

/-- The end of a text is its last token and no other one. -/
theorem tokensOf_eq_append_finish (source : String) :
    ∃ ts p, tokensOf source = ts ++ [.finish p] ∧ ∀ t ∈ ts, t.kind ≠ .finish := by
  obtain ⟨ts, hts, hne⟩ := tokensFrom_eq_append_finish .start source.toList
  exact ⟨ts, _, hts, hne⟩

theorem mem_tokensOf {source : String} {before after : List Token} {t : Token}
    (h : tokensOf source = before ++ t :: after) : t ∈ tokensOf source := by
  rw [h]
  exact List.mem_append_cons_self

/-- The tokens of a text are clean if none of them is a stray character. -/
theorem cleanTokens_eq_ok {source : String} {ts : List Token} :
    cleanTokens source = .ok ts ↔
      tokensOf source = ts ∧ ∀ t ∈ tokensOf source, t.kind ≠ .unknown := by
  rw [cleanTokens]
  split
  · next t hfind =>
    have hk := List.find?_some hfind
    have hmem := List.mem_of_find?_eq_some hfind
    constructor
    · intro h; cases h
    · rintro ⟨-, hclean⟩
      exact absurd (of_decide_eq_true hk) (hclean t hmem)
  · next hfind =>
    rw [List.find?_eq_none] at hfind
    constructor
    · rintro h
      cases h
      exact ⟨rfl, fun t ht hk => hfind t ht (decide_eq_true hk)⟩
    · rintro ⟨rfl, -⟩
      rfl

/-- The first stray character of a text is refused. -/
theorem cleanTokens_eq_error {source : String} {fault : Fault} :
    cleanTokens source = .error fault ↔ ∃ earlier t later, tokensOf source = earlier ++ t :: later ∧
      t.kind = .unknown ∧ (∀ u ∈ earlier, u.kind ≠ .unknown) ∧
        fault = .refused (.unexpectedCharacter t.text) t.place := by
  have hrefusal (t : Token) (hk : t.kind = .unknown) :
      t.refusal "a token" = .refused (.unexpectedCharacter t.text) t.place := by
    rw [Token.refusal, if_pos hk]
  rw [cleanTokens]
  constructor
  · intro h
    split at h
    · next t hfind =>
      cases h
      obtain ⟨hk, earlier, later, hsource, hearlier⟩ := List.find?_eq_some_iff_append.mp hfind
      have hk : t.kind = .unknown := of_decide_eq_true hk
      refine ⟨earlier, t, later, hsource, hk, fun u hu hku => ?_, hrefusal t hk⟩
      simpa [hku] using hearlier u hu
    · cases h
  · rintro ⟨earlier, t, later, hsource, hk, hearlier, rfl⟩
    have hfind : (tokensOf source).find? (·.kind = .unknown) = some t :=
      List.find?_eq_some_iff_append.mpr
        ⟨decide_eq_true hk, earlier, later, hsource, fun u hu => by simpa using hearlier u hu⟩
    rw [hfind, ← hrefusal t hk]

namespace Program

variable {limit : Nat} {source : String}

/-- The reading of a text stops at one of its tokens, behind tokens of lexemes. -/
theorem exists_stop (limit : Nat) (source : String) :
    ∃ before t after, tokensOf source = before ++ t :: after ∧
      (stop limit (tokensOf source)).rest = t :: after ∧
      (stop limit (tokensOf source)).current = t ∧
      (stop limit (tokensOf source)).position = before.length ∧ ∀ u ∈ before, u.OfLexeme := by
  obtain ⟨before, hp, hbefore⟩ := crosses_stop limit (tokensOf source)
  have hsource : tokensOf source = before ++ (stop limit (tokensOf source)).rest := hp.rest
  have hposition := hp.position
  rw [show (Cursor.ofTokens (tokensOf source)).position = 0 from rfl, Nat.zero_add] at hposition
  cases hrest : (stop limit (tokensOf source)).rest with
  | nil =>
    -- the end of the text is not behind the cursor
    obtain ⟨t, ht, hk⟩ := exists_finish_mem_tokensOf source
    rw [hrest, List.append_nil] at hsource
    rw [hsource] at ht
    exact absurd hk (hbefore t ht).2
  | cons t after =>
    rw [hrest] at hsource
    exact ⟨before, t, after, hsource, rfl, Cursor.current_eq hrest, hposition, hbefore⟩

/-- A text that is no program is refused for the token at which its reading stops. -/
theorem exists_refused {fault : Fault} (h : ofTokensWithin limit (tokensOf source) = .error fault) :
    ∃ before t after reason, tokensOf source = before ++ t :: after ∧
      (stop limit (tokensOf source)).current = t ∧ (∀ u ∈ before, u.OfLexeme) ∧
      t.RefusedFor reason ∧ fault = .refused reason t.place := by
  obtain ⟨before, t, after, hsource, -, rfl, -, hbefore⟩ := exists_stop limit source
  obtain ⟨reason, hreason, hfault⟩ := stop_blames (fun _ ht => wellFormed_of_mem_tokensOf ht) h
  exact ⟨before, _, after, reason, hsource, rfl, hbefore, hreason, hfault⟩

/-- A text that is refused at the place of a token is refused for that token. -/
theorem stop_of_place {reason : Refusal} {t : Token} (ht : t ∈ tokensOf source)
    (h : ofTokensWithin limit (tokensOf source) = .error (.refused reason t.place)) :
    ∃ before after, tokensOf source = before ++ t :: after ∧
      (stop limit (tokensOf source)).rest = t :: after ∧ ∀ u ∈ before, u.OfLexeme := by
  obtain ⟨before, s, after, hsource, hrest, hs, -, hbefore⟩ := exists_stop limit source
  obtain ⟨reason', -, hfault⟩ := stop_blames (fun _ ht => wellFormed_of_mem_tokensOf ht) h
  obtain ⟨-, hplace⟩ := Fault.refused.inj hfault
  obtain rfl := eq_of_place_eq ht (mem_tokensOf hsource) (by rw [hplace, hs])
  exact ⟨before, after, hsource, hrest, hbefore⟩

/-- A text that is a program has no stray characters. -/
theorem ne_unknown_of_ofTokensWithin {p : Program}
    (h : ofTokensWithin limit (tokensOf source) = .ok p) :
    ∀ t ∈ tokensOf source, t.kind ≠ .unknown := by
  obtain ⟨before, t, after, hsource, hrest, -, -, hbefore⟩ := exists_stop limit source
  have hend := headKind_stop (fun _ ht => wellFormed_of_mem_tokensOf ht) h
  obtain ⟨ts, q, hts, hne⟩ := tokensOf_eq_append_finish source
  rw [hrest] at hend
  obtain rfl : before = ts := by
    have happ : ts ++ [.finish q] = before ++ t :: after := by rw [← hts, hsource]
    exact yield_eq_of_append_eq hne (fun u hu => (hbefore u hu).2) rfl hend happ
  intro u hu
  rw [hts, List.mem_append, List.mem_singleton] at hu
  rcases hu with hu | rfl
  · exact (hbefore u hu).1
  · exact Kind.noConfusion

/-! ### Stray characters -/

/-- A text without stray characters is refused by the grammar only. -/
theorem family_ne_lexical (hclean : ∀ t ∈ tokensOf source, t.kind ≠ .unknown) {reason : Refusal}
    {p : Place} (h : ofTokensWithin limit (tokensOf source) = .error (.refused reason p)) :
    reason.family ≠ .lexical := by
  obtain ⟨before, t, after, reason', hsource, -, -, hreason, heq⟩ := exists_refused h
  cases heq
  rcases hreason.family_eq with ⟨hk, -⟩ | ⟨-, hfamily⟩
  · exact absurd hk (hclean t (mem_tokensOf hsource))
  · rw [hfamily]
    exact Family.noConfusion

/-- What is refused at a stray character is that character. -/
theorem eq_of_refused_at_stray {reason : Refusal} {t : Token} (ht : t ∈ tokensOf source)
    (hk : t.kind = .unknown)
    (h : ofTokensWithin limit (tokensOf source) = .error (.refused reason t.place)) :
    reason = .unexpectedCharacter t.text := by
  obtain ⟨before, s, after, reason', hsource, -, -, hreason, heq⟩ := exists_refused h
  obtain ⟨rfl, hplace⟩ := Fault.refused.inj heq
  obtain rfl := eq_of_place_eq ht (mem_tokensOf hsource) hplace
  exact hreason.eq_of_stray hk

/-- The reading of a text does not go past a stray character. -/
theorem stray_not_mem_take {t : Token} (hk : t.kind = .unknown) :
    t ∉ (tokensOf source).take (stop limit (tokensOf source)).position := by
  obtain ⟨before, s, after, hsource, -, -, hposition, hbefore⟩ := exists_stop limit source
  rw [hposition, hsource, List.take_left]
  exact fun hmem => (hbefore t hmem).1 hk

/-- A text is refused for its first stray character, or by the grammar before it. -/
theorem refused_by_first_stray {earlier later : List Token} {t : Token}
    (hsource : tokensOf source = earlier ++ t :: later) (hk : t.kind = .unknown)
    (hearlier : ∀ u ∈ earlier, u.kind ≠ .unknown) :
    ofTokensWithin limit (tokensOf source) =
        .error (.refused (.unexpectedCharacter t.text) t.place) ∨
      ∃ reason p, ofTokensWithin limit (tokensOf source) = .error (.refused reason p) ∧
        reason.family = .grammatical ∧ p.Before t.place := by
  have hmem := mem_tokensOf hsource
  cases h : ofTokensWithin limit (tokensOf source) with
  | ok p => exact absurd hk (ne_unknown_of_ofTokensWithin h t hmem)
  | error fault =>
    obtain ⟨before, s, after, reason, hsource', -, hbefore, hreason, rfl⟩ := exists_refused h
    rw [hsource', List.mem_append, List.mem_cons] at hmem
    rcases hmem with hmem | rfl | hmem
    · exact absurd hk (hbefore t hmem).1
    · rw [hreason.eq_of_stray hk]
      exact .inl rfl
    · have hplace : s.place.Before t.place := before_of_tokensOf hsource' hmem
      rcases hreason.family_eq with ⟨hs, -⟩ | ⟨-, hfamily⟩
      · -- no token before the first stray character is one
        have hs' := mem_tokensOf hsource'
        rw [hsource, List.mem_append, List.mem_cons] at hs'
        rcases hs' with hs' | rfl | hs'
        · exact absurd hs (hearlier s hs')
        · exact absurd rfl hplace.ne
        · exact absurd rfl (hplace.trans (before_of_tokensOf hsource hs')).ne
      · exact .inr ⟨reason, s.place, rfl, hfamily, hplace⟩

/-! ### The main statements -/

/-- **A text that is no program is refused at one of its tokens.** Its characters can be read one by
one, which gives its tokens. Either they are a program, or they are refused for the token at which
the reading stops: for a stray character by the text, for any other token by the grammar. That token
stands in the text, so its place is one of the text. -/
theorem ofText_located (source : String) :
    (∃ r, (Reader.ofText source).Reads source.toList r ∧
      (Reader.ofText source).Drains (tokensOf source) r) ∧
    ((∃ p, Program.ofText source = .ok p) ∨
      ∃ (reason : Refusal) (t : Token), Program.ofText source = .error (.refused reason t.place) ∧
        t = (stop nestingLimit (tokensOf source)).current ∧ t ∈ tokensOf source ∧
        t.RefusedFor reason ∧
        (t.kind = .unknown ∧ reason.family = .lexical ∨
          t.kind ≠ .unknown ∧ reason.family = .grammatical) ∧
        t.StandsIn source.toList ∧ t.place.ExistsIn source.toList) := by
  have hpos : 0 ≤ (Reader.ofText source).position := Int.le_refl 0
  have hahead : (Reader.ofText source).ahead = source.toList := rfl
  refine ⟨⟨_, Reader.reads_past hpos (by rw [hahead, List.append_nil]), ?_⟩, ?_⟩
  · have hdrains := Reader.drains_tokensFrom hpos
    rw [hahead] at hdrains
    exact hdrains
  · cases h : Program.ofText source with
    | ok p => exact .inl ⟨p, rfl⟩
    | error fault =>
      obtain ⟨before, t, after, reason, hsource, hstop, -, hreason, rfl⟩ := exists_refused h
      have hmem := mem_tokensOf hsource
      have hstands := standsIn_of_mem_tokensOf hmem
      exact .inr ⟨reason, t, rfl, hstop.symm, hmem, hreason, hreason.family_eq, hstands,
        hstands.existsIn⟩

/-- **Refusing stray characters at once or where they are met.** If every character belongs to a
lexeme, the text has the outcome of its tokens, and it is not refused for a stray character. If not,
it is refused: either for the first stray character as well, or by the grammar and at an earlier
place. With any limit, a stray character is never passed, and there nothing but itself is refused.
-/
theorem stray_agree (source : String) :
    (∀ ts, cleanTokens source = .ok ts → Program.ofText source = Program.ofTokens ts ∧
      ∀ reason p, Program.ofText source = .error (.refused reason p) →
        reason.family ≠ .lexical) ∧
    (∀ fault, cleanTokens source = .error fault →
      ∃ t ∈ tokensOf source, fault = .refused (.unexpectedCharacter t.text) t.place ∧
        (Program.ofText source = .error fault ∨
          ∃ reason p, Program.ofText source = .error (.refused reason p) ∧
            reason.family = .grammatical ∧ p.Before t.place)) ∧
    (∀ limit, ∀ t ∈ tokensOf source, t.kind = .unknown →
      (∀ p, Program.ofTokensWithin limit (tokensOf source) ≠ .ok p) ∧
        t ∉ (tokensOf source).take (stop limit (tokensOf source)).position ∧
        ∀ reason,
          Program.ofTokensWithin limit (tokensOf source) = .error (.refused reason t.place) →
            reason = .unexpectedCharacter t.text) := by
  refine ⟨fun ts hts => ?_, fun fault hfault => ?_, fun limit t ht hk => ?_⟩
  · obtain ⟨rfl, hclean⟩ := cleanTokens_eq_ok.mp hts
    exact ⟨rfl, fun reason p h => family_ne_lexical hclean h⟩
  · obtain ⟨earlier, t, later, hsource, hk, hearlier, rfl⟩ := cleanTokens_eq_error.mp hfault
    exact ⟨t, mem_tokensOf hsource, rfl, refused_by_first_stray hsource hk hearlier⟩
  · exact ⟨fun p h => ne_unknown_of_ofTokensWithin h t ht hk, stray_not_mem_take hk,
      fun reason h => eq_of_refused_at_stray ht hk h⟩

/-- A number where a statement should begin is refused before a stray character behind it. -/
theorem stray_agree_of_later_stray : ∃ reason p, Program.ofText "1 $" = .error (.refused reason p) ∧
    reason.family = .grammatical ∧ p.Before ⟨1, 3⟩ := by
  obtain ⟨t, -, hfault, hcase⟩ := (stray_agree "1 $").2.1
    (.refused (.unexpectedCharacter "$") ⟨1, 3⟩) (by decide +kernel)
  obtain ⟨-, hplace⟩ := Fault.refused.inj hfault
  rw [← hplace] at hcase
  exact hcase.resolve_left (by decide +kernel)

end Program

end AelSyntax
