import AelSyntax.Proofs.Grammar.Completeness
import AelSyntax.Proofs.Grammar.Soundness
import AelSyntax.Proofs.Grammar.Unambiguity
import Mathlib.Tactic.Common

/-! # The programs are those of the grammar

Well-formed tokens up to the end of the text are a program if and only if they have a derivation
whose nestings the limit allows. There is at most one derivation, and the program is its tree
(`Derivation.accepts_iff`). -/

namespace AelSyntax

/-- The end of the text comes at the same place on both sides. -/
theorem yield_eq_of_append_eq {ts us rest : List Token} {e : Token}
    (hts : ∀ t ∈ ts, t.kind ≠ .finish) (hus : ∀ t ∈ us, t.kind ≠ .finish) (he : e.kind = .finish)
    (hrest : headKind rest = .finish) (h : ts ++ [e] = us ++ rest) : us = ts := by
  rcases List.append_eq_append_iff.mp h with ⟨as, rfl, has⟩ | ⟨bs, rfl, hbs⟩
  · cases as with
    | nil => exact List.append_nil ts
    | cons a as =>
      obtain ⟨rfl, -⟩ := List.cons.inj has
      exact absurd he (hus e (List.mem_append_right _ List.mem_cons_self))
  · cases bs with
    | nil => exact (List.append_nil us).symm
    | cons b bs =>
      rw [hbs] at hrest
      exact absurd hrest (hts b (List.mem_append_right _ List.mem_cons_self))

/-- **The grammar decides what is a program.** Well-formed tokens with the end of the text behind
them are read as a program if and only if they derive from the grammar within the limit; there is
one derivation at most, and the program is its tree. -/
theorem Derivation.accepts_iff (limit : Nat) (ts : List Token) (e : Token) (p : Program)
    (hts : ∀ t ∈ ts, t.Proper) (he : e.kind = .finish) :
    (Program.ofTokensWithin limit (ts ++ [e]) = .ok p ↔
      ∃ d : Derivation, d.yield = ts ∧ (∀ n ∈ d.nestings, n ≤ limit) ∧ d.tree = p) ∧
    ∀ d d' : Derivation, d.yield = ts → d'.yield = ts → d = d' := by
  refine ⟨⟨?_, ?_⟩, ?_⟩
  · intro h
    have hwf : ∀ t ∈ ts ++ [e], t.WellFormed := by
      rw [List.forall_mem_append, List.forall_mem_singleton]
      refine ⟨fun t ht => (hts t ht).wellFormed, ?_⟩
      rw [Token.WellFormed, he]
      rintro (h | h) <;> cases h
    obtain ⟨d, rest, rfl, hn, hyield, hrest⟩ := Derivation.of_accepted hwf h
    refine ⟨d, ?_, hn, rfl⟩
    exact yield_eq_of_append_eq (fun t ht => (hts t ht).kind_ne_finish)
      (fun t ht => (d.proper t ht).kind_ne_finish) he hrest hyield
  · rintro ⟨d, rfl, hn, rfl⟩
    exact d.accepted hn he
  · rintro d d' rfl h
    exact Derivation.unique h.symm

/-- A function takes the whole power behind it, so its operand and the exponent are each one level
deeper. -/
theorem Derivation.accepts_function_of_power :
    Program.ofTokensWithin 3
      ([⟨.printWord, "print", ⟨1, 1⟩⟩, ⟨.absWord, "abs", ⟨1, 7⟩⟩, ⟨.identifier, "x", ⟨1, 11⟩⟩,
        ⟨.power, "**", ⟨1, 13⟩⟩, ⟨.identifier, "y", ⟨1, 16⟩⟩] ++ [.finish ⟨1, 17⟩]) =
      .ok ⟨[.print (.unary .absolute (.binary .power (.name ⟨"x", ⟨1, 11⟩⟩)
        (.name ⟨"y", ⟨1, 16⟩⟩) ⟨1, 11⟩) ⟨1, 7⟩) ⟨1, 1⟩], ⟨1, 1⟩⟩ := by
  let operand : Phrase .power := .raised (.name ⟨"x", ⟨1, 11⟩⟩) ⟨1, 13⟩
    (.alone (.name ⟨"y", ⟨1, 16⟩⟩))
  let d : Derivation := ⟨.print ⟨1, 1⟩ (.plain (.chain (.bare (.chain
    (.applied .absolute (by decide) ⟨1, 7⟩ operand) .done)) .done)), []⟩
  exact (Derivation.accepts_iff 3 _ _ _ d.proper rfl).1.mpr ⟨d, rfl, by decide, rfl⟩

end AelSyntax
