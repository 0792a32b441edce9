import AelSyntax.Proofs.Grammar.Location
import AelSyntax.Proofs.Number.Integer
import AelSyntax.Proofs.Token.Lines
import AelSyntax.Proofs.Tree.Picture
import AelSyntax.Rendering

/-! # Lists of tokens as texts

The list of the tokens of a text has a line for each of them, and nothing in it is escaped. It can
be read all the same: no kind and no text of a token holds layout, so the newlines separate the
tokens, and the first colon and the tabs of a line separate the parts of its token
(`Token.ofLine?_line`). So the list of tokens of a text determines the tokens, and with them its
other renderings (`render_tokens_readable`). -/

namespace AelSyntax

open AelSyntax.Text

/-! ### Reading a line -/

/-- The parts of a line: what stands before the first colon, and behind it what stands between
tabs. -/
def partsOfLine (line : List Char) : List (List Char) :=
  line.takeWhile (· ≠ ':') :: ((line.dropWhile (· ≠ ':')).drop 1).splitOn '\t'

/-- The token that a line shows: its line, its column, its kind and its text. -/
def Token.ofLine? (line : String) : Option Token :=
  match partsOfLine line.toList with
  | [l, c, kind, text] => do
    let l ← Numeral.integer? l
    let c ← Numeral.integer? c
    return ⟨Kind.ofName (String.ofList kind), String.ofList text, ⟨l, c⟩⟩
  | _ => none

/-- The tokens that a text shows, one on each of its lines. -/
def tokensListed? (text : String) : Option (List Token) := (linesOf text).mapM Token.ofLine?

theorem partsOfLine_of_parts {l c kind text : List Char} (hl : ':' ∉ l)
    (hparts : ∀ part ∈ [c, kind, text], '\t' ∉ part) :
    partsOfLine (l ++ ':' :: ['\t'].intercalate [c, kind, text]) = [l, c, kind, text] := by
  have hpos : ∀ d ∈ l, decide (d ≠ ':') = true := fun d hd =>
    decide_eq_true fun hcolon => hl (hcolon ▸ hd)
  have hsplit := List.splitOn_intercalate '\t' hparts (by simp)
  rw [partsOfLine, List.takeWhile_append_of_pos hpos, List.dropWhile_append_of_pos hpos]
  simpa using hsplit

/-! ### Tokens that can be listed -/

/-- A token has a kind with a name of its own, and its text holds no layout. -/
def Token.Listable (t : Token) : Prop :=
  t.kind ∈ Kind.known ∧ ∀ c ∈ t.text.toList, isLayout c = false

theorem Spells.mem_known {k : Kind} {cs : List Char} (h : Spells k cs) : k ∈ Kind.known := by
  rcases h.cases_fixedText? with rfl | rfl | htext
  · decide
  · decide
  · cases k <;> first | decide | cases htext

/-- The tokens of a text can be listed if none of them is a stray character. -/
theorem listable_of_mem_tokensOf {source : String} {t : Token} (ht : t ∈ tokensOf source)
    (hk : t.kind ≠ .unknown) : t.Listable := by
  obtain ⟨ts, p, hts, hne⟩ := tokensOf_eq_append_finish source
  have hmem := ht
  rw [hts, List.mem_append, List.mem_singleton] at hmem
  rcases hmem with hmem | rfl
  · rcases spells_of_mem_tokensOf ht with h | h | h
    · exact absurd h (hne t hmem)
    · exact absurd h hk
    · exact ⟨h.mem_known, h.isLayout_eq_false⟩
  · have hlayout : "EOF".toList.all (fun c => !isLayout c) = true := by decide
    refine ⟨show Kind.finish ∈ Kind.known by decide, fun c hc => ?_⟩
    simpa using List.all_eq_true.mp hlayout c hc

theorem Kind.isLayout_name {k : Kind} (hk : k ∈ known) :
    ∀ c ∈ k.name.toList, isLayout c = false := by
  have hlayout : ∀ k ∈ known, k.name.toList.all (fun c => !isLayout c) = true := by decide
  intro c hc
  simpa using List.all_eq_true.mp (hlayout k hk) c hc

/-- No integer is written with a certain character that is neither a digit nor the sign. -/
theorem not_mem_toString (n : ℤ) {c : Char} (hdigit : c.isDigit = false) (hsign : c ≠ '-') :
    c ∉ (toString n).toList := by
  intro hmem
  rcases Numeral.isDigit_of_mem_toString c hmem with h | h
  · rw [hdigit] at h
    cases h
  · exact hsign h

namespace Token

variable {t : Token}

theorem toList_line (t : Token) : t.line.toList =
    (toString t.place.line).toList ++ ':' :: ['\t'].intercalate
      [(toString t.place.column).toList, t.kind.name.toList, t.text.toList] := by
  simp [line, List.intercalate]

/-- **A token is read from its line.** -/
theorem ofLine?_line (h : t.Listable) : ofLine? t.line = some t := by
  obtain ⟨hkind, htext⟩ := h
  have htab {cs : List Char} (hcs : ∀ c ∈ cs, isLayout c = false) : '\t' ∉ cs := by
    intro hmem
    have hlayout : isLayout '\t' = true := by decide
    rw [hcs '\t' hmem] at hlayout
    cases hlayout
  have hparts : partsOfLine t.line.toList = [(toString t.place.line).toList,
      (toString t.place.column).toList, t.kind.name.toList, t.text.toList] := by
    rw [toList_line]
    refine partsOfLine_of_parts (not_mem_toString _ (by decide) (by decide)) ?_
    simp only [List.forall_mem_cons, List.not_mem_nil, false_imp_iff, implies_true, and_true]
    exact ⟨not_mem_toString _ (by decide) (by decide), htab (Kind.isLayout_name hkind),
      htab htext⟩
  unfold ofLine?
  rw [hparts]
  simp only [Numeral.integer?_toString, String.ofList_toList, Kind.ofName_name t.kind hkind]
  rfl

theorem isLine_line (h : t.Listable) : IsLine t.line := by
  have hline {cs : List Char} (hcs : ∀ c ∈ cs, isLayout c = false) : '\n' ∉ cs := by
    intro hmem
    have hlayout := hcs '\n' hmem
    rw [isLayout_newline] at hlayout
    cases hlayout
  have hnumber (n : ℤ) : IsLine (toString n) := not_mem_toString n (by decide) (by decide)
  have hkind : IsLine t.kind.name := hline (Kind.isLayout_name h.1)
  have htext : IsLine t.text := hline h.2
  have hcolon : IsLine ":" := by decide
  have htab : IsLine "\t" := by decide
  simp only [line, isLine_append, hnumber, hkind, htext, hcolon, htab, and_self]

end Token

/-! ### Reading the list -/

/-- Lines below each other are found again. -/
theorem linesOf_intercalate {ls : List String} (hne : ls ≠ []) (hls : ∀ l ∈ ls, IsLine l) :
    linesOf (String.intercalate "\n" ls) = ls := by
  rw [linesOf, splitOn_intercalate_newline hne hls, List.map_map]
  simp [Function.comp_def]

/-- **A list of tokens is read back.** -/
theorem tokensListed?_intercalate {ts : List Token} (hne : ts ≠ []) (hts : ∀ t ∈ ts, t.Listable) :
    tokensListed? (String.intercalate "\n" (ts.map Token.line)) = some ts := by
  have hlines : ∀ l ∈ ts.map Token.line, IsLine l :=
    List.forall_mem_map.mpr fun t ht => Token.isLine_line (hts t ht)
  rw [tokensListed?, linesOf_intercalate (by simpa using hne) hlines]
  clear hne hlines
  induction ts with
  | nil => rfl
  | cons t ts ih =>
    rw [List.forall_mem_cons] at hts
    rw [List.map_cons, List.mapM_cons, Token.ofLine?_line hts.1, ih hts.2]
    rfl

/-- The tokens of a text without stray characters can be listed, and there is one at least. -/
theorem listable_of_cleanTokens {source : String} {ts : List Token}
    (h : cleanTokens source = .ok ts) : ts ≠ [] ∧ ∀ t ∈ ts, t.Listable := by
  obtain ⟨rfl, hclean⟩ := cleanTokens_eq_ok.mp h
  exact ⟨tokensFrom_ne_nil _ _, fun t ht => listable_of_mem_tokensOf ht (hclean t ht)⟩

theorem render_tokens_eq_ok {source text : String} : render source .tokens = .ok text ↔
    ∃ ts, cleanTokens source = .ok ts ∧ String.intercalate "\n" (ts.map Token.line) = text := by
  unfold render
  cases cleanTokens source with
  | error fault => simp [Except.map]
  | ok ts => simp [Except.map]

/-- **The tokens are read back from their list, and two texts with one list differ in no
rendering.** A text without stray characters has a list of tokens, and cutting it at the newlines,
and each line at its first colon and at its tabs, gives the tokens. Any other text with this list
has the same outline and the same record, or both are refused for both with the same fault. -/
theorem render_tokens_readable (source : String) (ts : List Token)
    (h : cleanTokens source = .ok ts) :
    ∃ text, render source .tokens = .ok text ∧ tokensListed? text = some ts ∧
      ∀ source', render source' .tokens = .ok text →
        (∃ tree json, render source .tree = .ok tree ∧ render source' .tree = .ok tree ∧
          render source .json = .ok json ∧ render source' .json = .ok json) ∨
        ∃ fault, render source .tree = .error fault ∧ render source' .tree = .error fault ∧
          render source .json = .error fault ∧ render source' .json = .error fault := by
  obtain ⟨hne, hts⟩ := listable_of_cleanTokens h
  have hread := tokensListed?_intercalate hne hts
  refine ⟨_, render_tokens_eq_ok.mpr ⟨ts, h, rfl⟩, hread, fun source' h' => ?_⟩
  obtain ⟨ts', h', htext⟩ := render_tokens_eq_ok.mp h'
  obtain ⟨hne', hts'⟩ := listable_of_cleanTokens h'
  have hsame : ts' = ts := by
    rw [← htext, tokensListed?_intercalate hne' hts'] at hread
    exact Option.some.inj hread
  have htokens : tokensOf source = tokensOf source' := by
    rw [(cleanTokens_eq_ok.mp h).1, (cleanTokens_eq_ok.mp h').1, hsame]
  rw [← render_congr htokens .tree, ← render_congr htokens .json]
  cases hprogram : Program.ofText source with
  | ok p => exact .inl ⟨p.picture, p.record.toText, by simp [render, hprogram, Except.map]⟩
  | error fault => exact .inr ⟨fault, by simp [render, hprogram, Except.map]⟩

/-- A tab for a space and a comment on a line that goes on change no token. -/
theorem render_tokens_readable_of_comment : ∃ ts text tree json,
    cleanTokens "let x =\tab ** 2\n" = .ok ts ∧ render "let x =\tab ** 2\n" .tokens = .ok text ∧
      tokensListed? text = some ts ∧ render "let x = ab ** 2 // square\n" .tokens = .ok text ∧
      render "let x =\tab ** 2\n" .tree = .ok tree ∧
      render "let x = ab ** 2 // square\n" .tree = .ok tree ∧
      render "let x =\tab ** 2\n" .json = .ok json ∧
      render "let x = ab ** 2 // square\n" .json = .ok json := by
  have hclean : (cleanTokens "let x =\tab ** 2\n").toBool = true := by decide +kernel
  have htokens : tokensOf "let x =\tab ** 2\n" = tokensOf "let x = ab ** 2 // square\n" := by
    decide +kernel
  have hparsed : (Program.ofText "let x =\tab ** 2\n").toBool = true := by decide +kernel
  cases h : cleanTokens "let x =\tab ** 2\n" with
  | error fault => rw [h] at hclean; cases hclean
  | ok ts =>
    obtain ⟨text, htext, hread, hsame⟩ := render_tokens_readable _ ts h
    have htext' : render "let x = ab ** 2 // square\n" .tokens = .ok text := by
      rw [← render_congr htokens, htext]
    rcases hsame _ htext' with ⟨tree, json, hrenderings⟩ | ⟨fault, hfault, -⟩
    · exact ⟨ts, text, tree, json, rfl, htext, hread, htext', hrenderings⟩
    · cases hprogram : Program.ofText "let x =\tab ** 2\n" with
      | error _ => rw [hprogram] at hparsed; cases hparsed
      | ok p => rw [render, hprogram] at hfault; cases hfault

end AelSyntax
