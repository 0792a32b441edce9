import AelSyntax.Grammar.Rules
import AelSyntax.Proofs.Grammar.Phrase
import Mathlib.Tactic.Common

/-! # Runs of rules

A rule made of several rules succeeds when each of them does, and fails where the first of them
fails (`Rule.bind_eq_ok`, `Rule.bind_eq_error`). What a run does to the cursor is said by
`Cursor.Passes`: the cursor has gone past some tokens, at the same depth. -/

namespace AelSyntax

/-! ### Cursors -/

namespace Cursor

/-- A cursor stands behind tokens that another one has in front of it. -/
structure Passes (c : Cursor) (ts : List Token) (c' : Cursor) : Prop where
  rest : c.rest = ts ++ c'.rest
  lastPlace : c'.lastPlace = c.lastPlace
  position : c'.position = c.position + ts.length
  depth : c'.depth = c.depth

variable {c c' c'' : Cursor} {ts ts' : List Token}

theorem Passes.refl (c : Cursor) : c.Passes [] c := ⟨rfl, rfl, rfl, rfl⟩

theorem Passes.trans (h : c.Passes ts c') (h' : c'.Passes ts' c'') : c.Passes (ts ++ ts') c'' := by
  refine ⟨?_, h'.lastPlace.trans h.lastPlace, ?_, h'.depth.trans h.depth⟩
  · rw [h.rest, h'.rest, List.append_assoc]
  · rw [h'.position, h.position, List.length_append, Nat.add_assoc]

/-- What is passed one level deeper is passed. -/
theorem Passes.of_deeper (h : Passes { c with depth := c.depth + 1 } ts c') :
    c.Passes ts { c' with depth := c'.depth - 1 } := by
  refine ⟨h.rest, h.lastPlace, h.position, ?_⟩
  show c'.depth - 1 = c.depth
  rw [h.depth]
  rfl

theorem Passes.rest_eq {rest : List Token} (h : c.Passes ts c') (hc : c.rest = ts ++ rest) :
    c'.rest = rest := by
  rw [h.rest] at hc
  exact List.append_cancel_left hc

theorem current_eq {t : Token} {rest : List Token} (h : c.rest = t :: rest) : c.current = t := by
  rw [current, h]
  rfl

theorem passes_advanced {t : Token} {rest : List Token} (h : c.rest = t :: rest) :
    c.Passes [t] c.advanced := by
  refine ⟨?_, rfl, rfl, rfl⟩
  show c.rest = t :: c.rest.tail
  rw [h]
  rfl

theorem rest_advanced {t : Token} {rest : List Token} (h : c.rest = t :: rest) :
    c.advanced.rest = rest := by
  show c.rest.tail = rest
  rw [h]
  rfl

theorem kind_current (c : Cursor) : c.current.kind = headKind c.rest := by
  rw [current, headKind]
  cases c.rest <;> rfl

/-- What was passed and the token behind it begin with the token at the start. -/
theorem Passes.headKind_append (h : c.Passes ts c') (v : List Token) :
    headKind (ts ++ [c'.current] ++ v) = c.current.kind := by
  rw [kind_current, h.rest]
  cases ts with
  | nil => exact c'.kind_current
  | cons t ts => rfl

/-- A cursor at anything but the end has a token in front of it. -/
theorem rest_of_kind_ne_finish (h : c.current.kind ≠ .finish) :
    c.rest = c.current :: c.advanced.rest := by
  rw [kind_current] at h
  rw [current]
  show c.rest = _ :: c.rest.tail
  cases hr : c.rest with
  | nil => rw [hr] at h; exact absurd rfl h
  | cons t ts => rfl

/-! ### Cursors in front of well-formed tokens -/

/-- The tokens in front of a cursor are well formed. -/
def WellFormed (c : Cursor) : Prop := ∀ t ∈ c.rest, t.WellFormed

theorem WellFormed.of_passes (h : c.WellFormed) (hp : c.Passes ts c') : c'.WellFormed := by
  intro t ht
  refine h t ?_
  rw [hp.rest]
  exact List.mem_append_right _ ht

theorem WellFormed.of_rest (h : c.WellFormed) {t : Token} (hc : c.rest = t :: ts) :
    c.advanced.WellFormed := h.of_passes (passes_advanced hc)

theorem WellFormed.rest_eq_mk (h : c.WellFormed) {k : Kind} {s : String} (hk : c.current.kind = k)
    (hs : k.fixedText? = some s) : c.rest = ⟨k, s, c.current.place⟩ :: c.advanced.rest := by
  have hne : c.current.kind ≠ .finish := by
    rw [hk]
    rintro rfl
    cases hs
  have hc := rest_of_kind_ne_finish hne
  have hwf : c.current.WellFormed := h c.current (by rw [hc]; exact List.mem_cons_self)
  rw [hwf.eq_mk hk hs] at hc
  exact hc

theorem WellFormed.rest_eq_binary (h : c.WellFormed) {o : BinaryOp} (hk : c.current.kind = o.kind) :
    c.rest = o.token c.current.place :: c.advanced.rest :=
  h.rest_eq_mk hk o.fixedText?_kind

theorem WellFormed.rest_eq_unary (h : c.WellFormed) {o : UnaryOp} (hk : c.current.kind = o.kind) :
    c.rest = o.token c.current.place :: c.advanced.rest :=
  h.rest_eq_mk hk o.fixedText?_kind

theorem exists_name (hk : c.current.kind = .identifier) :
    ∃ id : Identifier, c.rest = id.token :: c.advanced.rest := by
  have hc := rest_of_kind_ne_finish (c := c) (by rw [hk]; decide)
  refine ⟨⟨c.current.text, c.current.place⟩, ?_⟩
  rw [Identifier.token, ← hk]
  exact hc

/-- The kinds of tokens that begin a power. -/
def powerStarters : List Kind := [.identifier, .number, .openParen, .absWord, .sqrtWord]

/-- The token in front of a cursor begins a power in one of four ways, or it begins none. -/
theorem WellFormed.front_of_power (h : c.WellFormed) :
    (∃ id : Identifier, c.rest = id.token :: c.advanced.rest) ∨
      (∃ n : Number, c.rest = n.token c.current.place :: c.advanced.rest) ∨
      c.rest = .opening c.current.place :: c.advanced.rest ∨
      (∃ f : UnaryOp, f ≠ .negate ∧ c.rest = f.token c.current.place :: c.advanced.rest) ∨
      c.current.kind ∉ powerStarters := by
  by_cases hk : c.current.kind ∈ powerStarters
  · simp only [powerStarters, List.mem_cons, List.not_mem_nil, or_false] at hk
    rcases hk with hk | hk | hk | hk | hk
    · exact .inl (exists_name hk)
    · have hc := rest_of_kind_ne_finish (c := c) (by rw [hk]; decide)
      obtain ⟨n, hn⟩ := (h c.current (by rw [hc]; exact List.mem_cons_self)).eq_number hk
      exact .inr (.inl ⟨n, by rw [← hn]; exact hc⟩)
    · exact .inr (.inr (.inl (h.rest_eq_mk hk rfl)))
    · exact .inr (.inr (.inr (.inl ⟨.absolute, by decide, h.rest_eq_unary hk⟩)))
    · exact .inr (.inr (.inr (.inl ⟨.squareRoot, by decide, h.rest_eq_unary hk⟩)))
  · exact .inr (.inr (.inr (.inr hk)))

/-- The token in front of a cursor begins a statement in one of three ways, or it begins none. -/
theorem WellFormed.front_of_statement (h : c.WellFormed) :
    c.rest = .declaring c.current.place :: c.advanced.rest ∨
      (∃ id : Identifier, c.rest = id.token :: c.advanced.rest) ∨
      c.rest = .printing c.current.place :: c.advanced.rest ∨
      c.current.kind ∉ Clause.starters := by
  by_cases hk : c.current.kind ∈ Clause.starters
  · simp only [Clause.starters, List.mem_cons, List.not_mem_nil, or_false] at hk
    rcases hk with hk | hk | hk
    · exact .inl (h.rest_eq_mk hk rfl)
    · exact .inr (.inl (exists_name hk))
    · exact .inr (.inr (.inl (h.rest_eq_mk hk rfl)))
  · exact .inr (.inr (.inr hk))

end Cursor

/-! ### Rules -/

namespace Rule

variable {α β : Type} {r : Rule α} {f : α → Rule β} {c c' : Cursor}

theorem bind_of_ok {a : α} (h : r c = .ok a c') : (r >>= f) c = f a c' := by
  show EStateM.bind r f c = _
  rw [EStateM.bind, h]

theorem bind_of_error {e : Fault} (h : r c = .error e c') : (r >>= f) c = .error e c' := by
  show EStateM.bind r f c = _
  rw [EStateM.bind, h]

theorem bind_of_eq {r' : Rule α} (h : r c = r' c') : (r >>= f) c = (r' >>= f) c' := by
  show EStateM.bind r f c = EStateM.bind r' f c'
  rw [EStateM.bind, EStateM.bind, h]

/-- Two rules succeed, one after the other. -/
theorem bind_eq_ok {b : β} {c'' : Cursor} :
    (r >>= f) c = .ok b c'' ↔ ∃ a c', r c = .ok a c' ∧ f a c' = .ok b c'' := by
  cases h : r c with
  | ok a c' =>
    rw [bind_of_ok h]
    constructor
    · intro hf; exact ⟨a, c', rfl, hf⟩
    · rintro ⟨a', c₁, h', hf⟩; cases h'; exact hf
  | error e c' =>
    rw [bind_of_error h]
    constructor
    · intro h'; cases h'
    · rintro ⟨a', c₁, h', -⟩; cases h'

/-- Of two rules the first fails, or it succeeds and the second fails. -/
theorem bind_eq_error {e : Fault} {c'' : Cursor} :
    (r >>= f) c = .error e c'' ↔
      r c = .error e c'' ∨ ∃ a c', r c = .ok a c' ∧ f a c' = .error e c'' := by
  cases h : r c with
  | ok a c' =>
    rw [bind_of_ok h]
    constructor
    · intro hf; exact .inr ⟨a, c', rfl, hf⟩
    · rintro (h' | ⟨a', c₁, h', hf⟩)
      · cases h'
      · cases h'; exact hf
  | error e' c' =>
    rw [bind_of_error h]
    constructor
    · intro h'; cases h'; exact .inl rfl
    · rintro (h' | ⟨a', c₁, h', -⟩)
      · cases h'; rfl
      · cases h'

theorem current_bind (f : Token → Rule β) (c : Cursor) : (current >>= f) c = f c.current c := rfl

theorem advance_bind (f : Token → Rule β) (c : Cursor) :
    (advance >>= f) c = f c.current c.advanced := rfl

theorem remaining_bind (f : Nat → Rule β) (c : Cursor) :
    (remaining >>= f) c = f c.rest.length c := rfl

theorem pure_eq_ok {a b : α} : (pure a : Rule α) c = .ok b c' ↔ a = b ∧ c = c' := by
  constructor
  · intro h; cases h; exact ⟨rfl, rfl⟩
  · rintro ⟨rfl, rfl⟩; rfl

theorem take_of_eq {k : Kind} {what : String} (h : c.current.kind = k) :
    take [k] what c = .ok c.current c.advanced :=
  if_pos (List.mem_singleton.mpr h)

theorem take_of_rest (k : Kind) {what : String} {t : Token} {ts : List Token}
    (hc : c.rest = t :: ts) (hk : t.kind = k) : take [k] what c = .ok t c.advanced := by
  rw [take_of_eq (by rw [Cursor.current_eq hc, hk]), Cursor.current_eq hc]

theorem take_of_ne {k : Kind} {what : String} (h : c.current.kind ≠ k) :
    take [k] what c = .error (c.current.refusal what) c :=
  if_neg fun hmem => h (List.mem_singleton.mp hmem)

theorem take_eq_ok {k : Kind} {what : String} {t : Token} :
    take [k] what c = .ok t c' ↔ c.current.kind = k ∧ t = c.current ∧ c' = c.advanced := by
  by_cases hk : c.current.kind = k
  · rw [take_of_eq hk]
    constructor
    · intro h; cases h; exact ⟨hk, rfl, rfl⟩
    · rintro ⟨-, rfl, rfl⟩; rfl
  · rw [take_of_ne hk]
    constructor
    · intro h; cases h
    · rintro ⟨h, -⟩; exact absurd h hk

theorem take_eq_error {k : Kind} {what : String} {e : Fault} :
    take [k] what c = .error e c' ↔
      c.current.kind ≠ k ∧ e = c.current.refusal what ∧ c' = c := by
  by_cases hk : c.current.kind = k
  · rw [take_of_eq hk]
    constructor
    · intro h; cases h
    · rintro ⟨h, -⟩; exact absurd hk h
  · rw [take_of_ne hk]
    constructor
    · intro h; cases h; exact ⟨hk, rfl, rfl⟩
    · rintro ⟨-, rfl, rfl⟩; rfl

/-! ### Building -/

theorem build_binary (o : BinaryOp) (left right : Expr) (p : Place) :
    build (Expr.ofBinary o.spelling left right p) = pure (.binary o left right p) := by
  rw [o.ofBinary_spelling]
  rfl

theorem build_unary (o : UnaryOp) (operand : Expr) (p : Place) :
    build (Expr.ofUnary o.spelling operand p) = pure (.unary o operand p) := by
  rw [o.ofUnary_spelling]
  rfl

theorem build_number (n : Number) (p : Place) :
    build (Expr.ofNumeral n.text p) = pure (.literal n.value p) := by
  rw [n.ofNumeral_text]
  rfl

/-! ### Rules by the token in front of them -/

section Expressions

variable {inside operand : Rule Expr} {kinds : List Kind} {n : Nat} {left : Expr}
  {p : Place} {ts : List Token}

theorem chainWithin_of_not_mem (h : c.current.kind ∉ kinds) :
    chainWithin kinds operand n left c = .ok left c := by
  cases n with
  | zero => rfl
  | succ n => rw [chainWithin, current_bind, if_neg h]; rfl

theorem chainWithin_of_mem {o : BinaryOp} (ho : o.kind ∈ kinds) (h : c.rest = o.token p :: ts) :
    chainWithin kinds operand (n + 1) left c =
      (operand >>= fun right =>
        chainWithin kinds operand n (.binary o left right left.place)) c.advanced := by
  have hk : c.current.kind ∈ kinds := by rw [Cursor.current_eq h]; exact ho
  rw [chainWithin, current_bind, if_pos hk, advance_bind, Cursor.current_eq h]
  simp only [BinaryOp.text_token, build_binary, pure_bind]

theorem comparison_of_ne {sum : Rule Expr} (hleft : sum c = .ok left c')
    (h : c'.current.kind ≠ .equals) : comparison sum c = .ok left c' := by
  rw [comparison, bind_of_ok hleft, current_bind, if_neg h]
  rfl

theorem comparison_of_equals {sum : Rule Expr} (hleft : sum c = .ok left c')
    (h : c'.rest = BinaryOp.equals.token p :: ts) :
    comparison sum c =
      (sum >>= fun right => pure (.binary .equals left right left.place)) c'.advanced := by
  have hk : c'.current.kind = .equals := by rw [Cursor.current_eq h]; rfl
  rw [comparison, bind_of_ok hleft, current_bind, if_pos hk, advance_bind, Cursor.current_eq h]
  simp only [BinaryOp.text_token, build_binary]

theorem term_of_ne {product : Rule Expr} (h : c.current.kind ≠ .minus) :
    term product c = product c := by
  rw [term, current_bind, if_neg h]

theorem term_of_kind {product : Rule Expr} (h : c.current.kind = .minus) :
    term product c = (product >>= fun e =>
      build (Expr.ofUnary c.current.text e c.current.place)) c.advanced := by
  rw [term, current_bind, if_pos h, advance_bind]

theorem term_of_minus {product : Rule Expr} (h : c.rest = UnaryOp.negate.token p :: ts) :
    term product c = (product >>= fun e => pure (.unary .negate e p)) c.advanced := by
  have hk : c.current.kind = .minus := by rw [Cursor.current_eq h]; rfl
  rw [term_of_kind hk, Cursor.current_eq h]
  simp only [UnaryOp.text_token, UnaryOp.place_token, build_unary]

theorem raised_of_ne {base exponent : Rule Expr} (hbase : base c = .ok left c')
    (h : c'.current.kind ≠ .power) : raised base exponent c = .ok left c' := by
  rw [raised, bind_of_ok hbase, current_bind, if_neg h]
  rfl

theorem raised_of_power {base exponent : Rule Expr} (hbase : base c = .ok left c')
    (h : c'.rest = BinaryOp.power.token p :: ts) :
    raised base exponent c =
      (exponent >>= fun e => pure (.binary .power left e left.place)) c'.advanced := by
  have hk : c'.current.kind = .power := by rw [Cursor.current_eq h]; rfl
  rw [raised, bind_of_ok hbase, current_bind, if_pos hk, advance_bind, Cursor.current_eq h]
  simp only [BinaryOp.text_token, build_binary]

theorem primary_of_name {id : Identifier} (h : c.rest = id.token :: ts) :
    primary inside operand c = .ok (.name id) c.advanced := by
  rw [primary, current_bind, Cursor.current_eq h]
  show (advance >>= _) c = _
  rw [advance_bind, Cursor.current_eq h]
  rfl

theorem primary_of_number {m : Number} (h : c.rest = m.token p :: ts) :
    primary inside operand c = .ok (.literal m.value p) c.advanced := by
  rw [primary, current_bind, Cursor.current_eq h]
  show (advance >>= _) c = _
  rw [advance_bind, Cursor.current_eq h]
  exact congrFun (build_number m p) _

theorem primary_of_opening (h : c.rest = .opening p :: ts) :
    primary inside operand c = (inside >>= fun e =>
      take [.closeParen] "')'" >>= fun _ => pure e) c.advanced := by
  rw [primary, current_bind, Cursor.current_eq h]
  rfl

theorem primary_of_function {f : UnaryOp} (hf : f ≠ .negate) (h : c.rest = f.token p :: ts) :
    primary inside operand c = (operand >>= fun e => pure (.unary f e p)) c.advanced := by
  have hbuild : primary inside operand c =
      (operand >>= fun e => build (Expr.ofUnary f.spelling e p)) c.advanced := by
    rw [primary, current_bind, Cursor.current_eq h]
    rcases UnaryOp.kind_of_ne_negate hf with hk | hk <;>
      · rw [UnaryOp.kind_token, hk]
        show (advance >>= _) c = _
        rw [advance_bind, Cursor.current_eq h]
        rfl
  rw [hbuild]
  simp only [build_unary]

theorem primary_of_not_mem (h : c.current.kind ∉ Cursor.powerStarters) :
    primary inside operand c = .error (c.current.refusal "an expression") c := by
  rw [primary, current_bind]
  cases hk : c.current.kind <;> first | rfl | (rw [hk] at h; exact absurd (by decide) h)

end Expressions

section Statements

variable {expr : Rule Expr} {stmt : Rule Statement} {n : Nat} {p : Place} {ts : List Token}

/-- What declarations and assignments end with: an assignment sign and an expression. -/
def assigned (expr : Rule Expr) (f : Expr → Statement) : Rule Statement := do
  let _ ← take [.assign] "'='"
  let e ← expr
  pure (f e)

theorem statement_of_declaring (h : c.rest = .declaring p :: ts) :
    statement expr c = (take [.identifier] "identifier" >>= fun name =>
      assigned expr fun e => .declaration name.text e p) c.advanced := by
  rw [statement, current_bind, Cursor.current_eq h]
  show (advance >>= _) c = _
  rw [advance_bind, Cursor.current_eq h]
  rfl

theorem statement_of_name {id : Identifier} (h : c.rest = id.token :: ts) :
    statement expr c =
      assigned expr (fun e => .assignment id e id.place) c.advanced := by
  rw [statement, current_bind, Cursor.current_eq h]
  show (advance >>= _) c = _
  rw [advance_bind, Cursor.current_eq h]
  rfl

theorem statement_of_printing (h : c.rest = .printing p :: ts) :
    statement expr c = (expr >>= fun e => pure (.print e p)) c.advanced := by
  rw [statement, current_bind, Cursor.current_eq h]
  show (advance >>= _) c = _
  rw [advance_bind, Cursor.current_eq h]
  rfl

theorem statement_of_not_mem (h : c.current.kind ∉ Clause.starters) :
    statement expr c =
      .error (c.current.refusal "a statement ('let', 'print' or an assignment)") c := by
  rw [statement, current_bind]
  cases hk : c.current.kind <;> first | rfl | (rw [hk] at h; exact absurd (by decide) h)

theorem statementsWithin_of_finish (h : c.current.kind = .finish) :
    statementsWithin stmt n c = .ok [] c := by
  cases n with
  | zero => rfl
  | succ n => rw [statementsWithin, current_bind, if_pos h]; rfl

theorem statementsWithin_of_ne (h : c.current.kind ≠ .finish) :
    statementsWithin stmt (n + 1) c =
      (stmt >>= fun s => statementsWithin stmt n >>= fun ss => pure (s :: ss)) c := by
  rw [statementsWithin, current_bind, if_neg h]

theorem program_eq (stmt : Rule Statement) (c : Cursor) :
    program stmt c = (stmt >>= fun s => remaining >>= fun bound =>
      statementsWithin stmt bound >>= fun ss => pure ⟨s :: ss, c.current.place⟩) c := rfl

end Statements

/-! ### Depth -/

theorem nested_of_ok {a : α} (h : r { c with depth := c.depth + 1 } = .ok a c') :
    nested r c = .ok a { c' with depth := c'.depth - 1 } := by
  rw [nested, h]

theorem nested_of_error {e : Fault} (h : r { c with depth := c.depth + 1 } = .error e c') :
    nested r c = .error e { c' with depth := c'.depth - 1 } := by
  rw [nested, h]

theorem nested_eq_ok {a : α} :
    nested r c = .ok a c' ↔ ∃ c₁, r { c with depth := c.depth + 1 } = .ok a c₁ ∧
      c' = { c₁ with depth := c₁.depth - 1 } := by
  cases h : r { c with depth := c.depth + 1 } with
  | ok b c₁ =>
    rw [nested_of_ok h]
    constructor
    · intro h'; cases h'; exact ⟨c₁, rfl, rfl⟩
    · rintro ⟨c₂, h', rfl⟩; cases h'; rfl
  | error e c₁ =>
    rw [nested_of_error h]
    constructor
    · intro h'; cases h'
    · rintro ⟨c₂, h', -⟩; cases h'

theorem nested_eq_error {e : Fault} :
    nested r c = .error e c' ↔ ∃ c₁, r { c with depth := c.depth + 1 } = .error e c₁ ∧
      c' = { c₁ with depth := c₁.depth - 1 } := by
  cases h : r { c with depth := c.depth + 1 } with
  | ok b c₁ =>
    rw [nested_of_ok h]
    constructor
    · intro h'; cases h'
    · rintro ⟨c₂, h', -⟩; cases h'
  | error e' c₁ =>
    rw [nested_of_error h]
    constructor
    · intro h'; cases h'; exact ⟨c₁, rfl, rfl⟩
    · rintro ⟨c₂, h', rfl⟩; cases h'; rfl

end Rule

end AelSyntax
