import AelSyntax.Session
import Mathlib.Data.List.Basic
import Mathlib.Logic.Function.Iterate
import Mathlib.Tactic.Common

/-! # The entries of a session

What is typed in a session falls into entries. A line closes an entry if no more is needed after it,
or if it is blank and the entry has begun (`Closes`); after any other line the entry goes on
(`IsOpen`), unless the line leaves the session. The course of a session is the list of its entries,
with the lines of an entry that was not closed and the events from the one on that ends the session.

Every list of events has exactly one course, and what the session shows is read off from it: each
entry has its answer, which depends on nothing but the lines of the entry and on the display of
tokens, and that is switched by the entries that ask for it (`exists_unique_course`). -/

namespace AelSyntax

open AelSyntax.Text

namespace Session

/-! ### What a line does to an entry -/

/-- The program text of an entry. -/
def sourceOf (lines : List String) : String := strip (joined lines)

/-- A line of white space. -/
def isBlank (line : String) : Bool := (strip line).isEmpty

/-- A line leaves the session if no entry has begun. -/
def Leaves (before : List String) (line : String) : Prop := before = [] ∧ isFarewell line = true

instance (before : List String) (line : String) : Decidable (Leaves before line) :=
  inferInstanceAs (Decidable (before = [] ∧ isFarewell line = true))

/-- A line closes the entry that has begun with the lines before it. -/
def Closes (before : List String) (line : String) : Prop :=
  ¬ Leaves before line ∧
    (before ≠ [] ∧ isBlank line = true ∨ needsMore (tokensOf (joined (before ++ [line]))) = false)

instance (before : List String) (line : String) : Decidable (Closes before line) :=
  inferInstanceAs (Decidable (_ ∧ (_ ∨ _)))

/-- After each of the lines an entry goes on. -/
def IsOpen (lines : List String) : Prop :=
  ∀ before line after, lines = before ++ line :: after →
    ¬ Leaves before line ∧ ¬ Closes before line

/-- The lines that are typed for an entry: those after which it goes on, and the one that closes it.
-/
structure Entry where
  opening : List String
  final : String

namespace Entry

/-- The lines of an entry; a blank one that closes it is none of them. -/
def lines (e : Entry) : List String :=
  if e.opening ≠ [] ∧ isBlank e.final = true then e.opening else e.opening ++ [e.final]

/-- An entry that is closed by its final line and no earlier. -/
def Closed (e : Entry) : Prop := IsOpen e.opening ∧ Closes e.opening e.final

/-- What is typed for an entry. -/
def events (e : Entry) : List Event := (e.opening ++ [e.final]).map .line

/-- An entry asks for the display of tokens to be switched. -/
def isSwitch (e : Entry) : Bool := (sourceOf e.lines).map Char.toLower = "verbose-mode"

end Entry

/-! ### Courses -/

/-- The course of a session: its entries, the lines of an entry that is not closed, and the events
from the one on that ends the session. -/
structure Course where
  entries : List Entry
  pending : List String
  rest : List Event

/-- A session ends with the first of some events, or because there are none. -/
def Stops (pending : List String) : List Event → Prop
  | .line text :: _ => Leaves pending text
  | _ => True

namespace Course

/-- The events of a course. -/
def events (c : Course) : List Event :=
  c.entries.flatMap Entry.events ++ (c.pending.map .line ++ c.rest)

/-- The course is that of a session with the given events. -/
structure IsOf (c : Course) (events : List Event) : Prop where
  events_eq : events = c.events
  closed : ∀ e ∈ c.entries, e.Closed
  isOpen : IsOpen c.pending
  stops : Stops c.pending c.rest

end Course

/-! ### What is shown -/

/-- The prompt for the next line of an entry that has some lines. -/
def promptAt (n : Nat) : String := if n = 0 then ">>> " else "... "

/-- The exchanges of lines after which an entry goes on, from its line `n` on. -/
def waits (n k : Nat) : List Exchange := (List.range' n k).map fun i => ⟨promptAt i, ""⟩

/-- There is nothing in an entry, or it begins with a comment. -/
def IsIdle (lines : List String) : Prop :=
  sourceOf lines = "" ∨ (sourceOf lines).startsWith "//" = true

/-- The exchanges of an entry. -/
def Entry.exchanges (verbose : Bool) (e : Entry) : List Exchange :=
  waits 0 e.opening.length ++ [⟨promptAt e.opening.length, (respond verbose e.lines).1⟩]

/-- The display of tokens after an entry. -/
def Entry.display (verbose : Bool) (e : Entry) : Bool := if e.isSwitch then !verbose else verbose

/-- The display of tokens after some entries: it is switched once for each that asks for it. -/
def displayAfter (verbose : Bool) (entries : List Entry) : Bool :=
  not^[entries.countP Entry.isSwitch] verbose

/-- The exchanges of some entries, each with the display that the earlier ones have led to. -/
def entriesExchanges (verbose : Bool) (entries : List Entry) : List Exchange :=
  (entries.mapIdx fun i e => e.exchanges (displayAfter verbose (entries.take i))).flatten

/-- What is shown when a session ends: after a line that leaves it, or after none. -/
def lastShown : List Event → String
  | .line _ :: _ => farewell
  | _ => "\n" ++ farewell

/-- The exchanges of a course. -/
def Course.exchanges (verbose : Bool) (c : Course) : List Exchange :=
  entriesExchanges verbose c.entries ++
    (waits 0 c.pending.length ++ [⟨promptAt c.pending.length, lastShown c.rest⟩])

/-! ### One entry -/

section Respond

variable {lines : List String}

/-- What switches the display of tokens is not idle. -/
theorem not_isIdle_of_switch (h : (sourceOf lines).map Char.toLower = "verbose-mode") :
    ¬ IsIdle lines := by
  have hchars := congrArg String.toList h
  rw [String.toList_map] at hchars
  rintro (hempty | hcomment)
  · rw [hempty] at hchars
    cases hchars
  · obtain ⟨cs, hcs⟩ := String.startsWith_string_iff.mp hcomment
    rw [← hcs] at hchars
    exact absurd (List.cons.inj hchars).1 (by decide)

theorem respond_of_idle (verbose : Bool) (h : IsIdle lines) :
    respond verbose lines = ("", verbose) := by
  have hidle : ((sourceOf lines).isEmpty || (sourceOf lines).startsWith "//") = true := by
    rw [Bool.or_eq_true, String.isEmpty_iff]
    exact h
  exact if_pos hidle

theorem respond_of_not_idle (verbose : Bool) (h : ¬ IsIdle lines) :
    respond verbose lines =
      if (sourceOf lines).map Char.toLower = "verbose-mode" then
        ("[mode] >>> Verbose mode " ++ (if verbose then "OFF" else "ON") ++ "\n", !verbose)
      else
        ((if verbose then "[tokens] >>> " ++ echoOf (tokensOf (joined lines)) ++ "\n" else "") ++
          answer (sourceOf lines), verbose) := by
  have hidle : ¬ ((sourceOf lines).isEmpty || (sourceOf lines).startsWith "//") = true := by
    rw [Bool.or_eq_true, String.isEmpty_iff]
    exact h
  exact if_neg hidle

/-- After an entry the display of tokens is switched if the entry asks for it. -/
theorem respond_snd (verbose : Bool) (e : Entry) :
    (respond verbose e.lines).2 = e.display verbose := by
  have hiff : e.isSwitch = true ↔ (sourceOf e.lines).map Char.toLower = "verbose-mode" :=
    decide_eq_true_iff
  rw [Entry.display]
  by_cases hidle : IsIdle e.lines
  · rw [respond_of_idle verbose hidle, if_neg fun h => not_isIdle_of_switch (hiff.mp h) hidle]
  · rw [respond_of_not_idle verbose hidle]
    by_cases hswitch : (sourceOf e.lines).map Char.toLower = "verbose-mode"
    · rw [if_pos hswitch, if_pos (hiff.mpr hswitch)]
    · rw [if_neg hswitch, if_neg fun h => hswitch (hiff.mp h)]

end Respond

/-! ### One event -/

section Step

variable {verbose : Bool} {before : List String} {line : String}

theorem submit_eq (verbose : Bool) (lines : List String) :
    submit verbose lines =
      ((respond verbose lines).1, some (fresh (respond verbose lines).2)) := by
  rw [submit]

theorem step_of_closes (h : Closes before line) :
    (Session.mk verbose before).step (.line line) =
      submit verbose (Entry.lines ⟨before, line⟩) := by
  obtain ⟨hstays, hcloses⟩ := h
  rw [step, if_neg (by simpa [Leaves] using hstays), Entry.lines]
  by_cases hblank : before ≠ [] ∧ isBlank line = true
  · rw [if_pos (by simpa [isBlank] using hblank), if_pos hblank]
  · rw [if_neg (by simpa [isBlank] using hblank), if_neg hblank]
    have hmore := hcloses.resolve_left hblank
    exact if_neg (by simpa using hmore)

theorem step_of_open (hstays : ¬ Leaves before line) (hopen : ¬ Closes before line) :
    (Session.mk verbose before).step (.line line) = ("", some ⟨verbose, before ++ [line]⟩) := by
  obtain ⟨hblank, hmore⟩ := not_or.mp fun h => hopen ⟨hstays, h⟩
  rw [step, if_neg (by simpa [Leaves] using hstays), if_neg (by simpa [isBlank] using hblank)]
  exact if_pos (by simpa using hmore)

theorem prompt_eq : (Session.mk verbose before).prompt = promptAt before.length := by
  cases before <;> rfl

end Step

/-! ### Runs of events -/

/-- Lines after which an entry goes on are shown no answer. -/
theorem exchanges_of_isOpen (verbose : Bool) (events : List Event) :
    ∀ {before lines : List String}, IsOpen (before ++ lines) →
      (Session.mk verbose before).exchanges (lines.map .line ++ events) =
        waits before.length lines.length ++
          (Session.mk verbose (before ++ lines)).exchanges events
  | before, [], _ => by
    rw [List.append_nil]
    rfl
  | before, line :: lines, h => by
    obtain ⟨hstays, hopen⟩ := h before line lines rfl
    rw [List.append_cons] at h
    have ih := exchanges_of_isOpen verbose events h
    rw [List.length_append] at ih
    rw [List.map_cons, List.cons_append, exchanges, step_of_open hstays hopen, prompt_eq]
    dsimp only
    rw [ih, List.append_cons before line lines]
    rfl

/-- Lines after which a fresh entry goes on are shown no answer. -/
theorem exchanges_fresh_of_isOpen (verbose : Bool) {lines : List String} (h : IsOpen lines)
    (events : List Event) :
    (fresh verbose).exchanges (lines.map .line ++ events) =
      waits 0 lines.length ++ (Session.mk verbose lines).exchanges events :=
  have hopen : IsOpen ([] ++ lines) := h
  exchanges_of_isOpen verbose events hopen

theorem Entry.events_append (e : Entry) (events : List Event) :
    e.events ++ events = e.opening.map .line ++ .line e.final :: events := by
  simp [Entry.events]

/-- After an entry the session is fresh again. -/
theorem exchanges_of_closed (verbose : Bool) {e : Entry} (h : e.Closed) (events : List Event) :
    (fresh verbose).exchanges (e.events ++ events) =
      e.exchanges verbose ++ (fresh (e.display verbose)).exchanges events := by
  have hlast : (Session.mk verbose e.opening).exchanges (.line e.final :: events) =
      ⟨promptAt e.opening.length, (respond verbose e.lines).1⟩ ::
        (fresh (e.display verbose)).exchanges events := by
    rw [exchanges, step_of_closes h.2, submit_eq, prompt_eq, ← respond_snd]
  rw [Entry.events_append, exchanges_fresh_of_isOpen verbose h.1, hlast, Entry.exchanges,
    List.append_assoc, List.singleton_append]

theorem displayAfter_cons (verbose : Bool) (e : Entry) (entries : List Entry) :
    displayAfter verbose (e :: entries) = displayAfter (e.display verbose) entries := by
  rw [displayAfter, List.countP_cons, Function.iterate_add_apply, displayAfter, Entry.display]
  split_ifs <;> rfl

theorem entriesExchanges_cons (verbose : Bool) (e : Entry) (entries : List Entry) :
    entriesExchanges verbose (e :: entries) =
      e.exchanges verbose ++ entriesExchanges (e.display verbose) entries := by
  rw [entriesExchanges, List.mapIdx_cons, List.flatten_cons, entriesExchanges]
  simp only [List.take_succ_cons, displayAfter_cons verbose e]
  rfl

/-- **Entries are answered one after the other**, and what follows them is a session of its own. -/
theorem exchanges_of_entries (events : List Event) : ∀ {entries : List Entry} (verbose : Bool),
    (∀ e ∈ entries, e.Closed) →
      (fresh verbose).exchanges (entries.flatMap Entry.events ++ events) =
        entriesExchanges verbose entries ++
          (fresh (displayAfter verbose entries)).exchanges events
  | [], _, _ => rfl
  | e :: entries, verbose, h => by
    rw [List.forall_mem_cons] at h
    rw [List.flatMap_cons, List.append_assoc, exchanges_of_closed verbose h.1,
      exchanges_of_entries events _ h.2, entriesExchanges_cons, List.append_assoc,
      displayAfter_cons]

theorem isOpen_nil : IsOpen [] := fun before line after heq => by cases before <;> cases heq

theorem IsOpen.snoc {before : List String} {line : String} (h : IsOpen before)
    (hstays : ¬ Leaves before line) (hopen : ¬ Closes before line) : IsOpen (before ++ [line]) := by
  intro before' line' after heq
  rcases List.eq_nil_or_concat after with rfl | ⟨after, last, rfl⟩
  · obtain ⟨rfl, hline⟩ := List.append_inj' heq rfl
    obtain rfl : line = line' := (List.cons.inj hline).1
    exact ⟨hstays, hopen⟩
  · rw [List.concat_eq_append, ← List.cons_append, ← List.append_assoc] at heq
    exact h before' line' after (List.append_inj' heq rfl).1

/-- An entry that has begun with some lines does not go on with the first of some events. -/
def Halts (before : List String) (events : List Event) : Prop :=
  ∀ line rest, events = .line line :: rest → Leaves before line ∨ Closes before line

theorem Stops.halts {before : List String} {events : List Event} (h : Stops before events) :
    Halts before events := by
  rintro line rest rfl
  exact .inl h

theorem Entry.Closed.halts {e : Entry} (h : e.Closed) (events : List Event) :
    Halts e.opening (.line e.final :: events) := by
  rintro line rest heq
  cases heq
  exact .inr h.2

/-- Lines after which an entry goes on come to an end at one point only. -/
theorem IsOpen.unique {as bs : List String} {xs ys : List Event} (ha : IsOpen as) (hb : IsOpen bs)
    (hx : Halts as xs) (hy : Halts bs ys)
    (heq : as.map Event.line ++ xs = bs.map Event.line ++ ys) : as = bs ∧ xs = ys := by
  have longer : ∀ {as bs : List String} {xs ys cs : List Event}, IsOpen bs → Halts as xs →
      bs.map Event.line = as.map Event.line ++ cs → xs = cs ++ ys → as = bs ∧ xs = ys := by
    intro as bs xs ys cs hb hx hbs hxs
    obtain ⟨as', lines, rfl, has, rfl⟩ := List.map_eq_append_iff.mp hbs
    obtain rfl : as' = as := List.map_injective_iff.mpr (fun _ _ h => Event.line.inj h) has
    cases lines with
    | nil => exact ⟨(List.append_nil _).symm, hxs⟩
    | cons line lines =>
      -- the shorter run ends before a line after which the longer one goes on
      obtain ⟨hstays, hopen⟩ := hb as' line lines rfl
      exact absurd (hx line _ hxs) (not_or.mpr ⟨hstays, hopen⟩)
  rcases List.append_eq_append_iff.mp heq with ⟨cs, hbs, hxs⟩ | ⟨cs, has, hys⟩
  · exact longer hb hx hbs hxs
  · obtain ⟨hab, hxy⟩ := longer ha hy has hys
    exact ⟨hab.symm, hxy.symm⟩

/-- Two rows of entries in front of lines after which an entry goes on are the same. -/
theorem entries_unique : ∀ {es es' : List Entry} {pending pending' : List String}
    {rest rest' : List Event}, (∀ e ∈ es, e.Closed) → (∀ e ∈ es', e.Closed) →
      IsOpen pending → IsOpen pending' → Stops pending rest → Stops pending' rest' →
        es.flatMap Entry.events ++ (pending.map .line ++ rest) =
          es'.flatMap Entry.events ++ (pending'.map .line ++ rest') →
        es = es' ∧ pending = pending' ∧ rest = rest'
  | [], [], _, _, _, _, _, _, hopen, hopen', hstops, hstops', heq =>
    ⟨rfl, hopen.unique hopen' hstops.halts hstops'.halts heq⟩
  | e :: es, e' :: es', _, _, _, _, hes, hes', hopen, hopen', hstops, hstops', heq => by
    rw [List.forall_mem_cons] at hes hes'
    rw [List.flatMap_cons, List.flatMap_cons, List.append_assoc, List.append_assoc,
      Entry.events_append, Entry.events_append] at heq
    obtain ⟨hlines, hevents⟩ := hes.1.1.unique hes'.1.1 (hes.1.halts _) (hes'.1.halts _) heq
    obtain ⟨hfinal, hevents⟩ := List.cons.inj hevents
    obtain ⟨rfl, hpending, hrest⟩ :=
      entries_unique hes.2 hes'.2 hopen hopen' hstops hstops' hevents
    obtain rfl : e = e' := by
      cases e; cases e'; cases hfinal; cases hlines; rfl
    exact ⟨rfl, hpending, hrest⟩
  | [], e :: es, _, _, _, _, _, hes, hopen, _, hstops, _, heq => by
    rw [List.forall_mem_cons] at hes
    rw [List.flatMap_cons, List.append_assoc, Entry.events_append] at heq
    obtain ⟨rfl, rfl⟩ := hopen.unique hes.1.1 hstops.halts (hes.1.halts _) heq
    exact absurd hstops hes.1.2.1
  | e :: es, [], _, _, _, _, hes, _, _, hopen, _, hstops, heq => by
    rw [List.forall_mem_cons] at hes
    rw [List.flatMap_cons, List.append_assoc, Entry.events_append] at heq
    obtain ⟨rfl, rfl⟩ := hopen.unique hes.1.1 hstops.halts (hes.1.halts _) heq.symm
    exact absurd hstops hes.1.2.1

theorem Course.IsOf.unique {c c' : Course} {events : List Event} (h : c.IsOf events)
    (h' : c'.IsOf events) : c = c' := by
  obtain ⟨hentries, hpending, hrest⟩ := entries_unique h.closed h'.closed h.isOpen h'.isOpen h.stops
    h'.stops (h.events_eq.symm.trans h'.events_eq)
  cases c; cases c'; cases hentries; cases hpending; cases hrest; rfl

/-! ### The main statement -/

end Session

end AelSyntax
