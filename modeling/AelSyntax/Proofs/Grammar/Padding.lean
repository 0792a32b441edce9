import AelSyntax.Proofs.Grammar.Joining
import AelSyntax.Proofs.Grammar.Legible
import AelSyntax.Proofs.Grammar.Places
import AelSyntax.Proofs.Token.Padding
import Mathlib.Tactic.Common

/-! # Programs with layout around them

Layout around a text moves its tokens, the end of the text in another way than the others
(`tokensOf_eq_map_moved`). No node of a program is at the end of its text, so a program is moved as
the other tokens are, and a text that is no program is refused in the same way, at the token that is
moved (`Program.ofText_padded`). -/

namespace AelSyntax

open AelSyntax.Text

/-- Where the tokens of a text are with some characters around it: behind those at the front, and at
the end of the other text if they are at the end of this one. -/
def Place.padded (front : List Char) (s e : String) : Place → Place :=
  Function.update (Place.behind front) (.ofOffset s.toList s.toList.length)
    (.ofOffset e.toList e.toList.length)

theorem Place.padded_end (front : List Char) (s e : String) :
    padded front s e (.ofOffset s.toList s.toList.length) = .ofOffset e.toList e.toList.length :=
  Function.update_self ..

/-- The last token of a text is its end, behind all its characters. -/
theorem place_finish_eq {s : String} {ts : List Token} {p : Place}
    (h : tokensOf s = ts ++ [.finish p]) : p = .ofOffset s.toList s.toList.length := by
  obtain ⟨ts', hts', -⟩ := tokensFrom_eq_append_finish .start s.toList
  rw [← tokensOf, h, Place.afterAll_start] at hts'
  obtain ⟨-, hlast⟩ := List.append_inj' hts' rfl
  exact congrArg Token.place (List.cons.inj hlast).1

theorem Place.padded_of_mem (front : List Char) {s e : String} {ts : List Token} {p : Place}
    (h : tokensOf s = ts ++ [.finish p]) {t : Token} (ht : t ∈ ts) :
    padded front s e t.place = t.place.behind front := by
  refine Function.update_of_ne ?_ _ _
  rw [← place_finish_eq h]
  exact place_ne_of_tokensOf h t (List.mem_append_left _ ht)

section Padded

variable {s e : String} {front back : List Char} (he : e.toList = front ++ (s.toList ++ back))
  (hfront : ∀ c ∈ front, isLayout c = true) (hback : ∀ c ∈ back, isLayout c = true)
include he hfront hback

theorem tokensOf_eq_map_moved :
    tokensOf e = (tokensOf s).map (Token.moved (Place.padded front s e)) := by
  obtain ⟨ts, p, hts, -⟩ := tokensOf_eq_append_finish s
  have hmoved : ts.map (Token.moved (Place.behind front)) =
      ts.map (Token.moved (Place.padded front s e)) :=
    List.map_congr_left fun t ht => by rw [Token.moved, Token.moved, Place.padded_of_mem _ hts ht]
  have hend : Place.padded front s e p = .ofOffset e.toList e.toList.length := by
    rw [place_finish_eq hts, Place.padded_end]
  rw [tokensOf_padded he hfront hback, hts, List.dropLast_concat, hmoved, List.map_append, ← hend]
  rfl

namespace Program

/-- **A text with layout around it.** If the text is a program, so it is with the layout, and every
node is moved on behind the layout before it. If it is refused, then for one of its tokens, and with
the layout in the same way: at its own end if the text is refused at its end, and else at the token,
moved on like a node. -/
theorem ofText_padded :
    (∃ p, ofText s = .ok p ∧ ofText e = .ok (p.moved (Place.behind front))) ∨
    ∃ (reason reason' : Refusal) (t : Token), t ∈ tokensOf s ∧
      ofText s = .error (.refused reason t.place) ∧
      reason'.family = reason.family ∧ reason'.description = reason.description ∧
      (t.kind ≠ .finish → ofText e = .error (.refused reason' (t.place.behind front))) ∧
      (t.kind = .finish → t.place = .ofOffset s.toList s.toList.length ∧
        ofText e = .error (.refused reason' (.ofOffset e.toList e.toList.length))) := by
  obtain ⟨-, hmoved⟩ :=
    ofTokensWithin_moved (Place.padded front s e) (length_stop_pos nestingLimit s)
  rw [← tokensOf_eq_map_moved he hfront hback] at hmoved
  cases h : ofText s with
  | ok p =>
    refine .inl ⟨p, rfl, ?_⟩
    obtain ⟨ts, last, hts, hbuilt⟩ := exists_builtFrom h
    -- every node is at a token before the end, and there both maps agree
    have hnodes : p.moved (Place.padded front s e) = p.moved (Place.behind front) := by
      refine moved_congr fun n hn => ?_
      obtain ⟨us, hus, hnode⟩ := Node.exists_builtFrom hbuilt n hn
      obtain ⟨t, ht, hplace⟩ := hnode.exists_place_eq
      rw [← hplace, Place.padded_of_mem front hts (hus.subset ht)]
    rw [ofText, ofTokens] at h ⊢
    rw [hmoved, h, ← hnodes]
  | error fault =>
    obtain ⟨before, t, after, reason, hsource, -, -, -, rfl⟩ := exists_refused h
    obtain ⟨ts, last, hts, hne⟩ := tokensOf_eq_append_finish s
    have hrefused : ofText e = .error
        (.refused (reason.moved (Place.padded front s e)) (Place.padded front s e t.place)) := by
      rw [ofText, ofTokens] at h ⊢
      rw [hmoved, h]
      rfl
    have ht := mem_tokensOf hsource
    refine .inr ⟨reason, _, t, ht, rfl, reason.family_moved (Place.padded front s e),
      reason.description_moved _, fun hk => ?_, fun hk => ?_⟩
    all_goals rw [hts, List.mem_append, List.mem_singleton] at ht
    · have hmem : t ∈ ts := ht.resolve_right fun hlast => hk (by rw [hlast]; rfl)
      rw [hrefused, Place.padded_of_mem front hts hmem]
    · obtain rfl := ht.resolve_left fun hmem => hne t hmem hk
      have hplace : (Token.finish last).place = _ := place_finish_eq hts
      rw [hplace] at hrefused
      rw [hrefused, Place.padded_end]
      exact ⟨hplace, rfl⟩

end Program

end Padded

/-- **Cutting layout off a text changes nothing but places.** Let all white space at both ends of a
text be layout. Either what is left is a program, then so is the text, with the same tree, and every
node of it is as many lines further down as the white space at the front has newlines, and on the
first line as many columns further as stand behind the last of these. Or what is left is refused for
one of its tokens, then so is the text, with the same family and the same description: at its end if
what is left is refused at its end, and else at the place of the token, moved on like a node. -/
theorem Program.ofText_strip (e : String) (h : ∀ c ∈ cutFront e ++ cutBack e, isLayout c = true) :
    (∃ p, ofText (strip e) = .ok p ∧ ofText e = .ok (p.moved (Place.behind (cutFront e))) ∧
      (Node.program p).sameTree (.program (p.moved (Place.behind (cutFront e)))) = true) ∨
    ∃ (reason reason' : Refusal) (t : Token), t ∈ tokensOf (strip e) ∧
      ofText (strip e) = .error (.refused reason t.place) ∧
      reason'.family = reason.family ∧ reason'.description = reason.description ∧
      (t.kind ≠ .finish → ofText e = .error (.refused reason' (t.place.behind (cutFront e)))) ∧
      (t.kind = .finish → t.place = .ofOffset (strip e).toList (strip e).toList.length ∧
        ofText e = .error (.refused reason' (.ofOffset e.toList e.toList.length))) := by
  rw [List.forall_mem_append] at h
  refine (ofText_padded (strip_append e) h.1 h.2).imp_left ?_
  rintro ⟨p, hp, hmoved⟩
  refine ⟨p, hp, hmoved, ?_⟩
  have hlegible := legible_of_ofText hp
  have hsame := sameTree_moved id (Place.behind (cutFront e)) p p
  rw [moved_id] at hsame
  rw [hsame, ← picture_eq_iff_of_legible hlegible hlegible]

/-- An entry with a blank line before it and a comment at its end. -/
theorem Program.ofText_strip_of_blank_line : ofText "\n  print x +\n y // z \n" =
    .ok ⟨[.print (.binary .plus (.name ⟨"x", ⟨2, 9⟩⟩) (.name ⟨"y", ⟨3, 2⟩⟩) ⟨2, 9⟩) ⟨2, 3⟩],
      ⟨2, 3⟩⟩ := by
  have hstripped : ofText (strip "\n  print x +\n y // z \n") = .ok
      ⟨[.print (.binary .plus (.name ⟨"x", ⟨1, 7⟩⟩) (.name ⟨"y", ⟨2, 2⟩⟩) ⟨1, 7⟩) ⟨1, 1⟩],
        ⟨1, 1⟩⟩ := by decide +kernel
  rcases ofText_strip "\n  print x +\n y // z \n" (List.all_eq_true.mp (by decide +kernel)) with
    ⟨p, hp, hmoved, -⟩ | ⟨_, _, _, -, hrefused, -⟩
  · obtain rfl := Except.ok.inj (hstripped.symm.trans hp)
    exact hmoved.trans (by decide +kernel)
  · cases hstripped.symm.trans hrefused

end AelSyntax
