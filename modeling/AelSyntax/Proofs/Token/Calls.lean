import AelSyntax.Proofs.Token.Progress
import AelSyntax.Proofs.Token.Standing
import Mathlib.Tactic.Common

/-! # Any calls of a reader

A reader may be asked for anything at any time (`Reader.Call`): to skip the line in the middle of a
lexeme, to find an operator in a gap, to go on behind the end. It stands between the characters it
has passed and those that are ahead (`Reader.Between`), and whatever it is asked for, it passes some
of the characters ahead and nothing else happens (`Reader.perform_of_nonneg`). So the position, the
line and the column belong to each other after any row of calls (`Reader.Between.run`).

* `Reader.perform_run`: after any calls a reader stands where its line and column say, each further
  call comes to an end, reads on step by step, and fails only as a step behind the end. -/

namespace AelSyntax

open AelSyntax.Text

namespace Reader

/-! ### Calls and answers -/

/-- What a reader can be asked for. Reading one character is the same call by both of its names. -/
inductive Call where
  | next
  | peek (offset : Int)
  | atEnd
  | skipGap
  | skipLine
  | operator
  | nextToken
  | tokens
deriving DecidableEq

/-- What a reader answers. -/
inductive Answer where
  | read (c : Char)
  | seen (c : Option Char)
  | ended (b : Bool)
  | skipped
  | operator (t : Option Token)
  | token (t : Token)
  | tokens (ts : List Token)
  | fault (e : ReadFault)
deriving DecidableEq

/-- The answer to a call, and the reader after it, which is still where it was if the call fails;
nothing if the call never comes to an end. -/
def perform (r : Reader) : Call → Option (Answer × Reader)
  | .next =>
    match r.next with
    | .ok (c, r') => some (.read c, r')
    | .error e => some (.fault e, r)
  | .peek offset => some (.seen (r.peek offset), r)
  | .atEnd => some (.ended r.atEnd, r)
  | .skipGap => some (.skipped, r.skipGap)
  | .skipLine =>
    match r.skipLine with
    | .ok r' => some (.skipped, r')
    | .error e => some (.fault e, r)
  | .operator =>
    match r.operator? with
    | some (t, r') => some (.operator (some t), r')
    | none => some (.operator none, r)
  | .nextToken => some (.token r.nextToken.1, r.nextToken.2)
  | .tokens => r.tokens?.map fun x => (.tokens x.1, x.2)

/-- The reader after a row of calls. -/
def run (r : Reader) : List Call → Option Reader
  | [] => some r
  | call :: calls => (r.perform call).bind fun x => x.2.run calls

theorem run_append (r : Reader) (calls calls' : List Call) :
    r.run (calls ++ calls') = (r.run calls).bind fun r' => r'.run calls' := by
  induction calls generalizing r with
  | nil => rfl
  | cons call calls ih =>
    rw [List.cons_append, run, run, Option.bind_assoc]
    exact congrArg _ (funext fun x => ih x.2)

/-! ### Between two parts of a text -/

/-- A reader that began with its text stands behind one part of it and before the other one. -/
structure Between (before rest : List Char) (r : Reader) : Prop where
  source : r.source = before ++ rest
  position : r.position = before.length
  place : r.place = Place.start.afterAll before

theorem between_ofText (source : String) : (ofText source).Between [] source.toList :=
  ⟨rfl, rfl, rfl⟩

namespace Between

variable {r : Reader} {before cs rest : List Char}

theorem nonneg (h : r.Between before rest) : 0 ≤ r.position := by
  rw [h.position]
  exact Int.natCast_nonneg _

theorem ahead (h : r.Between before rest) : r.ahead = rest := by
  rw [ahead_of_nonneg h.nonneg, h.source, h.position, Int.toNat_natCast, List.drop_left]

theorem place_eq (h : r.Between before rest) :
    r.place = .ofOffset (before ++ rest) r.position.toNat := by
  rw [h.place, h.position, Int.toNat_natCast, Place.ofOffset_append]

theorem past (h : r.Between before (cs ++ rest)) : (r.past cs).Between (before ++ cs) rest where
  source := h.source.trans (List.append_assoc _ _ _).symm
  position := by
    rw [position_past, h.position, List.length_append, Int.natCast_add]
  place := by
    rw [Place.afterAll_append, ← h.place]
    rfl

end Between

/-! ### One call -/

/-- A reader passes some of the characters ahead. -/
def Passes (r r' : Reader) : Prop := ∃ cs rest, r.ahead = cs ++ rest ∧ r' = r.past cs

section Passes

variable {r r' r'' : Reader}

theorem Passes.refl (r : Reader) : r.Passes r := ⟨[], r.ahead, rfl, r.past_nil.symm⟩

theorem Passes.trans (hpos : 0 ≤ r.position) (h : r.Passes r') (h' : r'.Passes r'') :
    r.Passes r'' := by
  obtain ⟨cs, rest, hr, rfl⟩ := h
  obtain ⟨ds, rest', hr', rfl⟩ := h'
  rw [ahead_past hpos hr] at hr'
  exact ⟨cs ++ ds, rest', by rw [hr, hr', List.append_assoc], (past_append _ _ _).symm⟩

theorem Passes.source_eq (h : r.Passes r') : r'.source = r.source := by
  obtain ⟨_, _, _, rfl⟩ := h
  rfl

theorem Passes.nonneg (hpos : 0 ≤ r.position) (h : r.Passes r') : 0 ≤ r'.position := by
  obtain ⟨cs, _, _, rfl⟩ := h
  exact nonneg_past hpos cs

theorem passes_skipGap (r : Reader) : r.Passes r.skipGap :=
  ⟨_, _, (splitGap_append false r.ahead).symm, rfl⟩

theorem passes_takeLexeme {l : Lexeme} {rest : List Char} (h : r.ahead = l.chars ++ rest) :
    r.Passes (r.takeLexeme l).2 := ⟨_, rest, h, rfl⟩

/-- From inside the text only what is ahead up to the end of the line is skipped. -/
theorem skipLine_of_nonneg (h : 0 ≤ r.position) :
    r.skipLine = .ok (r.past (r.ahead.takeWhile (· ≠ '\n'))) := by
  have hbehind : r.behind = [] := if_neg (by omega)
  rw [skipLine, indexFault?_of_nonneg h, hbehind, ahead_of_nonneg h, List.nil_append]

theorem passes_operator {t : Token} (h : r.operator? = some (t, r')) : r.Passes r' := by
  rw [operator?] at h
  cases hr : r.ahead with
  | nil =>
    rw [hr] at h
    cases h
  | cons c cs =>
    rw [hr] at h
    obtain ⟨⟨l, rest⟩, hl, htaken⟩ := Option.map_eq_some_iff.mp h
    have hlexeme := passes_takeLexeme (hr.trans (Lexeme.operator?_append hl).symm)
    rw [htaken] at hlexeme
    exact hlexeme

theorem passes_nextToken (h : 0 ≤ r.position) : r.Passes r.nextToken.2 := by
  cases hr : (splitGap false r.ahead).2 with
  | nil =>
    rw [nextToken_of_eq_nil h hr]
    exact ⟨_, [], (List.append_nil _).symm, rfl⟩
  | cons c rest =>
    have happ := splitGap_append false r.ahead
    rw [hr, ← Lexeme.scan_append c rest] at happ
    rw [nextToken_of_eq_cons h hr]
    exact (passes_skipGap r).trans h (passes_takeLexeme (ahead_past h happ.symm))

end Passes

/-- **Every call passes some of the characters ahead.** Only reading a character behind the end
fails; nothing is passed then, and neither by a call that only looks ahead. -/
theorem perform_of_nonneg {r : Reader} (h : 0 ≤ r.position) (call : Call) :
    ∃ answer r', r.perform call = some (answer, r') ∧ r.Passes r' ∧
      (∀ e, answer = .fault e →
        call = .next ∧ r.ahead = [] ∧ e = .pastEnd r.position r.place.line ∧ r' = r) ∧
      (call = .atEnd ∨ (∃ offset, call = .peek offset) ∨ answer = .operator none → r' = r) := by
  cases call with
  | next =>
    cases hr : r.ahead with
    | nil =>
      have hnext : r.next = .error (.pastEnd r.position r.place.line) :=
        if_pos ((atEnd_iff h).mpr hr)
      refine ⟨.fault (.pastEnd r.position r.place.line), r, by rw [perform, hnext], .refl r,
        fun e he => ?_, fun _ => rfl⟩
      cases he
      exact ⟨rfl, rfl, rfl, rfl⟩
    | cons c cs =>
      exact ⟨.read c, r.past [c], by rw [perform, next_of_ahead h hr], ⟨[c], cs, hr, rfl⟩,
        nofun, by simp⟩
  | peek offset => exact ⟨_, r, rfl, .refl r, nofun, fun _ => rfl⟩
  | atEnd => exact ⟨_, r, rfl, .refl r, nofun, fun _ => rfl⟩
  | skipGap => exact ⟨_, _, rfl, passes_skipGap r, nofun, by simp⟩
  | skipLine =>
    exact ⟨.skipped, _, by rw [perform, skipLine_of_nonneg h],
      ⟨_, _, (List.takeWhile_append_dropWhile).symm, rfl⟩, nofun, by simp⟩
  | operator =>
    cases hr : r.operator? with
    | none => exact ⟨.operator none, r, by rw [perform, hr], .refl r, nofun, fun _ => rfl⟩
    | some x =>
      exact ⟨.operator (some x.1), x.2, by rw [perform, hr], passes_operator hr, nofun, by simp⟩
  | nextToken => exact ⟨_, _, rfl, passes_nextToken h, nofun, by simp⟩
  | tokens =>
    have htokens := tokens?_eq_some_iff.mpr (drains_tokensFrom h)
    exact ⟨.tokens _, _, by rw [perform, htokens]; rfl,
      ⟨r.ahead, [], (List.append_nil _).symm, rfl⟩, nofun, by simp⟩

/-! ### Any calls -/

/-- What single calls pass adds up: a row of calls passes some of the characters ahead. -/
theorem run_of_nonneg {r : Reader} (h : 0 ≤ r.position) (calls : List Call) :
    ∃ r', r.run calls = some r' ∧ r.Passes r' := by
  induction calls generalizing r with
  | nil => exact ⟨r, rfl, .refl r⟩
  | cons call calls ih =>
    obtain ⟨answer, r₁, hcall, hpasses₁, -⟩ := perform_of_nonneg h call
    obtain ⟨r₂, hcalls, hpasses₂⟩ := ih (hpasses₁.nonneg h)
    exact ⟨r₂, by rw [run, hcall]; exact hcalls, hpasses₁.trans h hpasses₂⟩

namespace Between

variable {before rest : List Char} {r r' : Reader}

/-- What is passed is no longer ahead but behind. -/
theorem passes (h : r.Between before rest) (hp : r.Passes r') :
    ∃ cs rest', rest = cs ++ rest' ∧ r'.Between (before ++ cs) rest' := by
  obtain ⟨cs, rest', hahead, rfl⟩ := hp
  obtain rfl := h.ahead.symm.trans hahead
  exact ⟨cs, rest', rfl, h.past⟩

/-- After any calls a reader stands between two parts of the same text. -/
theorem run (h : r.Between before rest) (calls : List Call) : ∃ r' before' rest',
    r.run calls = some r' ∧ before' ++ rest' = before ++ rest ∧ r'.Between before' rest' := by
  obtain ⟨r', hrun, hpasses⟩ := run_of_nonneg h.nonneg calls
  obtain ⟨cs, rest', rfl, h'⟩ := h.passes hpasses
  exact ⟨r', before ++ cs, rest', hrun, List.append_assoc _ _ _, h'⟩

end Between

/-- **Line and column stay true under any calls.** After any calls a reader that began with its text
stands inside it or at its end, and its place is the one of its position: the line counts the
newlines before it and the column the characters behind the last of them. Each further call comes to
an end and reads on from there, step by step and never back; it fails only as a step behind the end,
which leaves the reader as it is, and so do a look ahead and an operator that is not found. -/
theorem perform_run (source : String) (calls : List Call) :
    ∃ r, (ofText source).run calls = some r ∧ r.source = source.toList ∧
      0 ≤ r.position ∧ r.position ≤ source.toList.length ∧
      r.place = .ofOffset source.toList r.position.toNat ∧
      ∀ call, ∃ answer r', r.perform call = some (answer, r') ∧
        (ofText source).run (calls ++ [call]) = some r' ∧
        (∃ cs, r.Reads cs r') ∧ r.position ≤ r'.position ∧
        (∀ e, answer = .fault e → call = .next ∧ r.position = source.toList.length ∧
          e = .pastEnd r.position r.place.line ∧ r' = r) ∧
        (call = .atEnd ∨ (∃ offset, call = .peek offset) ∨ answer = .operator none → r' = r) := by
  obtain ⟨r, before, rest, hrun, happ, h⟩ := (between_ofText source).run calls
  rw [List.nil_append] at happ
  have hlength : before.length + rest.length = source.toList.length := by
    rw [← List.length_append, happ]
  have hposition := h.position
  refine ⟨r, hrun, h.source.trans happ, h.nonneg, by omega, happ ▸ h.place_eq, fun call => ?_⟩
  obtain ⟨answer, r', hcall, ⟨cs, rest', hahead, rfl⟩, hfault, hlook⟩ :=
    perform_of_nonneg h.nonneg call
  refine ⟨answer, r.past cs, hcall, ?_, ⟨cs, reads_past h.nonneg hahead⟩, ?_, fun e he => ?_, hlook⟩
  · rw [run_append, hrun, Option.bind_some, run, hcall]
    rfl
  · rw [position_past]
    omega
  · obtain ⟨hcall, hend, he, hstays⟩ := hfault e he
    rw [h.ahead] at hend
    rw [hend, List.length_nil] at hlength
    exact ⟨hcall, by omega, he, hstays⟩

end Reader

end AelSyntax
