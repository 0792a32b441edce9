import AelSyntax.Proofs.Token.Calls
import AelSyntax.Proofs.Token.Joining
import AelSyntax.Proofs.Token.Scanning
import Mathlib.Tactic.Common

/-! # Reading on from the middle of a text

What a reader has passed, or never saw because it was started behind it, has no influence on the
tokens that are left: they are those of the unread text, which begins where the reader stands
(`Reader.unread`, `Place.begunAt`). A gap, a comment or a lexeme that is cut in two by the start is
read as if the text began there.

* `Reader.tokens_of_unread`: the tokens from any position on, also after any calls. -/

namespace AelSyntax

open AelSyntax.Text

namespace Reader

variable {r : Reader}

/-- The text from the position on. -/
def unread (r : Reader) : String := String.ofList (r.source.drop r.position.toNat)

theorem tokens?_of_nonneg (h : 0 ≤ r.position) :
    r.tokens? = some (tokensFrom r.place r.ahead, r.past r.ahead) :=
  if_neg (by omega)

theorem tokens?_ofText (source : String) :
    ∃ e, (ofText source).tokens? = some (tokensOf source, e) :=
  ⟨_, tokens?_of_nonneg (r := ofText source) (Int.le_refl 0)⟩

/-- The tokens of a reader are those of the unread text, as it begins where the reader stands. -/
theorem tokens?_begunAt (h : 0 ≤ r.position) :
    ∃ e, r.tokens? = some ((tokensOf r.unread).map (Token.moved r.place.begunAt), e) := by
  refine ⟨r.past r.ahead, ?_⟩
  rw [tokens?_of_nonneg h, tokensFrom_begunAt, tokensOf, unread, String.toList_ofList,
    ahead_of_nonneg h]

/-- **Reading from the middle of a text is reading the rest of it.** From any position of a text and
with any line and column, the tokens are those of the unread text, read by itself from its start,
with the lines counted on from the given line and the columns of the first line from the given
column; they are also those that are found by looking and stepping. After any calls, say for some of
the tokens, the tokens that are left depend on the unread text and on the line and column alone:
each reader that has these in common has these tokens. -/
theorem tokens_of_unread (h : 0 ≤ r.position) :
    (∃ ts e e', (ofText r.unread).tokens? = some (ts, e) ∧
      r.tokens? = some (ts.map (Token.moved r.place.begunAt), e')) ∧
    (∀ ts e, r.tokens? = some (ts, e) ↔ r.Lexes ts e) ∧
    ∀ calls, ∃ s, r.run calls = some s ∧ s.source = r.source ∧ 0 ≤ s.position ∧
      ∀ s' : Reader, 0 ≤ s'.position → s'.unread = s.unread → s'.place = s.place →
        ∃ ts e e', s.tokens? = some (ts, e) ∧ s'.tokens? = some (ts, e') := by
  refine ⟨?_, fun ts e => lexes_iff.symm, fun calls => ?_⟩
  · obtain ⟨e, htext⟩ := tokens?_ofText r.unread
    obtain ⟨e', htokens⟩ := tokens?_begunAt h
    exact ⟨_, e, e', htext, htokens⟩
  · obtain ⟨s, hrun, hpasses⟩ := run_of_nonneg h calls
    have hpos := hpasses.nonneg h
    refine ⟨s, hrun, hpasses.source_eq, hpos, fun s' hpos' hunread hplace => ?_⟩
    obtain ⟨e, htokens⟩ := tokens?_begunAt hpos
    obtain ⟨e', htokens'⟩ := tokens?_begunAt hpos'
    rw [hunread, hplace] at htokens'
    exact ⟨_, e, e', htokens, htokens'⟩

/-- From the last letter of a word on: that letter is a name, at the line and column it is given,
and behind the comment the columns begin anew. After a call for the first two tokens another reader,
of another text, has the tokens that are left in common. -/
theorem tokens_of_unread_of_comment :
    let r : Reader := ⟨"let x = 1 // c\n* 2".toList, 2, ⟨-3, 40⟩⟩
    let s' : Reader := ⟨" = 1 // c\n* 2".toList, 0, ⟨-3, 43⟩⟩
    (∃ e, r.tokens? = some ([⟨.identifier, "t", ⟨-3, 40⟩⟩, ⟨.identifier, "x", ⟨-3, 42⟩⟩,
      ⟨.assign, "=", ⟨-3, 44⟩⟩, ⟨.number, "1", ⟨-3, 46⟩⟩, ⟨.times, "*", ⟨-2, 1⟩⟩,
      ⟨.number, "2", ⟨-2, 3⟩⟩, .finish ⟨-2, 4⟩], e)) ∧
    ∃ s ts e e', r.run [.nextToken, .nextToken] = some s ∧ s.tokens? = some (ts, e) ∧
      s'.tokens? = some (ts, e') := by
  intro r s'
  obtain ⟨⟨ts, e, e', htext, htokens⟩, -, hcalls⟩ := tokens_of_unread (r := r) (by decide)
  obtain ⟨s, hrun, -, -, hsame⟩ := hcalls [.nextToken, .nextToken]
  have hread : (ofText r.unread).tokens?.map Prod.fst =
      some [⟨.identifier, "t", ⟨1, 1⟩⟩, ⟨.identifier, "x", ⟨1, 3⟩⟩, ⟨.assign, "=", ⟨1, 5⟩⟩,
        ⟨.number, "1", ⟨1, 7⟩⟩, ⟨.times, "*", ⟨2, 1⟩⟩, ⟨.number, "2", ⟨2, 3⟩⟩,
        .finish ⟨2, 4⟩] := by decide +kernel
  have hleft : (r.run [.nextToken, .nextToken]).map (fun s => (s.unread, s.place)) =
      some (s'.unread, s'.place) := by decide +kernel
  rw [htext] at hread
  obtain rfl := Option.some.inj hread
  rw [hrun] at hleft
  obtain ⟨hunread, hplace⟩ := Prod.mk.inj (Option.some.inj hleft)
  obtain ⟨ts, e₁, e₂, hs, hs'⟩ := hsame s' (by decide) hunread.symm hplace.symm
  exact ⟨⟨e', htokens⟩, s, ts, e₁, e₂, hrun, hs, hs'⟩

end Reader

end AelSyntax
