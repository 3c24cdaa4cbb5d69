import Treewalk.Proofs.Parsing.TokenLists

/-!
# Clean readings

A parser reads cleanly if it ends with a result and notes no error. `Parser.Yields` says between
which two states and with which result, and the lemmas below say so of each basic parser. What a
parser made of them does can then be read off its definition, in both directions: which tokens it
must have read if it has read cleanly, and that it reads given tokens cleanly.
-/

namespace Treewalk.Parser

/-! ## States in front of tokens -/

/-- The state in front of `ts`, if `s` is the state behind them. -/
def State.unread (s : State) (ts : List Token) : State :=
  { s with rest := ts ++ s.rest }

@[simp] theorem State.unread_nil (s : State) : s.unread [] = s := rfl

/-- Tokens put back one list after the other stand in front in the opposite order. -/
@[simp] theorem State.unread_unread (s : State) (ts us : List Token) :
    (s.unread us).unread ts = s.unread (ts ++ us) := by
  simp [unread]

@[simp] theorem State.unread_rest (s : State) (ts : List Token) :
    (s.unread ts).rest = ts ++ s.rest := rfl

@[simp] theorem State.unread_inFunction (s : State) (ts : List Token) :
    (s.unread ts).inFunction = s.inFunction := rfl

@[simp] theorem State.within_inFunction (s : State) (fn : Bool) :
    (s.within fn).inFunction = fn := rfl

@[simp] theorem State.within_self (s : State) : s.within s.inFunction = s := rfl

@[simp] theorem State.within_within (s : State) (fn fn' : Bool) :
    (s.within fn).within fn' = s.within fn' := rfl

@[simp] theorem State.unread_within (s : State) (ts : List Token) (fn : Bool) :
    (s.unread ts).within fn = (s.within fn).unread ts := rfl

/-- The next token is of none of the given kinds, or no token is left. -/
def State.Avoids (s : State) (kinds : List TokenKind) : Prop :=
  ∀ t ∈ s.rest.head?, t.kind ∉ kinds

theorem State.avoids_unread_cons {s : State} {t : Token} {ts : List Token}
    {kinds : List TokenKind} : (s.unread (t :: ts)).Avoids kinds ↔ t.kind ∉ kinds := by
  simp [Avoids]

theorem State.Avoids.mono {s : State} {kinds fewer : List TokenKind} (h : s.Avoids kinds)
    (hsub : fewer ⊆ kinds) : s.Avoids fewer :=
  fun t ht hmem => h t ht (hsub hmem)

/-- A parser that accepts kinds which do not come next leaves the state alone. This covers the end
of the input and a token of another kind alike. -/
theorem accept_of_avoids {s : State} {kinds : List TokenKind} (h : s.Avoids kinds) :
    accept kinds s = ⟨.ok none, s, .none⟩ := by
  cases hs : s.rest with
  | nil => exact accept_nil hs kinds
  | cons t rest => exact accept_of_not_mem hs (h t (by simp [hs]))

/-! ## Readings of the basic parsers -/

/-- From `s` the parser reads up to `t`, ends with `a` and notes no error. -/
def Yields {α : Type} (p : ListParser α) (s : State) (a : α) (t : State) : Prop :=
  (p s).result = .ok a ∧ (p s).state = t ∧ (p s).notes.errors = []

section
variable {α β : Type} {s t u : State}

theorem yields_pure {a b : α} : (pure a : ListParser α).Yields s b t ↔ a = b ∧ s = t := by
  simp [Yields, pure, Parser.pure, Notes.none]

/-- A sequence reads cleanly if there is a state in between up to which the first parser reads
cleanly, and from which the second one does. Errors noted by either part would stand in the notes of
the whole. -/
theorem yields_bind {p : ListParser α} {f : α → ListParser β} {b : β} :
    (p >>= f).Yields s b u ↔ ∃ a t, p.Yields s a t ∧ (f a).Yields t b u := by
  simp only [Yields, bind, Parser.bind]
  obtain ⟨result, state, notes⟩ := p s
  cases result with
  | error e => simp
  | ok a =>
    constructor
    · rintro ⟨hresult, hstate, hnotes⟩
      obtain ⟨hfirst, hsecond⟩ := List.append_eq_nil_iff.1 hnotes
      exact ⟨a, state, ⟨rfl, rfl, hfirst⟩, hresult, hstate, hsecond⟩
    · rintro ⟨_, _, ⟨⟨⟩, rfl, hfirst⟩, hresult, hstate, hsecond⟩
      exact ⟨hresult, hstate, List.append_eq_nil_iff.2 ⟨hfirst, hsecond⟩⟩

theorem yields_map {p : ListParser α} {f : α → β} {b : β} :
    (f <$> p).Yields s b t ↔ ∃ a, p.Yields s a t ∧ f a = b := by
  change (p >>= fun a => pure (f a)).Yields s b t ↔ _
  simp only [yields_bind, yields_pure]
  constructor
  · rintro ⟨a, _, ha, rfl, rfl⟩
    exact ⟨a, ha, rfl⟩
  · rintro ⟨a, ha, rfl⟩
    exact ⟨a, t, ha, rfl, rfl⟩

theorem yields_ite {c : Prop} [Decidable c] {p q : ListParser α} {a : α} :
    (if c then p else q).Yields s a t ↔ (c ∧ p.Yields s a t) ∨ (¬c ∧ q.Yields s a t) := by
  split <;> simp_all

theorem not_yields_unexpected {message : String} {a : α} :
    ¬(unexpected message : ListParser α).Yields s a t := by
  simp [Yields, unexpected]

theorem not_yields_report {e : SyntaxError} {a : Unit} : ¬(report e).Yields s a t := by
  simp [Yields, report]

theorem yields_peek {tok : Token} : peek.Yields s tok t ↔ s.current = tok ∧ s = t := by
  simp [Yields, peek, Notes.none]

theorem yields_inFunction {b : Bool} :
    inFunction.Yields s b t ↔ s.inFunction = b ∧ s = t := by
  simp [Yields, inFunction, Notes.none]

theorem yields_atEnd {b : Bool} : atEnd.Yields s b t ↔ s.rest.isEmpty = b ∧ s = t := by
  simp [Yields, atEnd, Notes.none]

/-- A look at the next token says no exactly if the token is of another kind. -/
theorem yields_check {kind : TokenKind} {b : Bool} :
    (check kind).Yields s b t ↔ (b = false ↔ s.Avoids [kind]) ∧ s = t := by
  obtain ⟨rest, stop, hstop, fn⟩ := s
  cases b <;> cases rest <;>
    simp [Yields, check, Notes.none, State.Avoids]

/-- Nothing is taken cleanly exactly where none of the kinds comes next. -/
theorem yields_accept_none {kinds : List TokenKind} :
    (accept kinds).Yields s none t ↔ s.Avoids kinds ∧ s = t := by
  cases hs : s.rest with
  | nil => simp [Yields, accept_nil hs, Notes.none, State.Avoids, hs]
  | cons tok rest =>
    by_cases h : tok.kind ∈ kinds
    · simp [Yields, accept_of_mem hs h, State.Avoids, hs, h]
    · simp [Yields, accept_of_not_mem hs h, Notes.none, State.Avoids, hs, h]

/-- A token is taken cleanly exactly if it is of one of the kinds and stands in front of what is
left. -/
theorem yields_accept_some {kinds : List TokenKind} {tok : Token} :
    (accept kinds).Yields s (some tok) t ↔ tok.kind ∈ kinds ∧ s = t.unread [tok] := by
  -- Whether a token is left, and of what kind it is, decides what the parser does; each case is
  -- then read in both directions.
  cases hs : s.rest with
  | nil =>
    constructor
    · rintro ⟨hresult, -⟩
      rw [accept_nil hs] at hresult
      cases hresult
    · rintro ⟨-, rfl⟩
      cases hs
  | cons head rest =>
    by_cases h : head.kind ∈ kinds
    · rw [Yields, accept_of_mem hs h]
      constructor
      · rintro ⟨⟨⟩, rfl, -⟩
        exact ⟨h, by rw [State.unread, List.singleton_append, ← hs]⟩
      · rintro ⟨-, rfl⟩
        cases hs
        exact ⟨rfl, rfl, rfl⟩
    · rw [Yields, accept_of_not_mem hs h]
      constructor
      · rintro ⟨⟨⟩, -⟩
      · rintro ⟨hmem, rfl⟩
        cases hs
        exact absurd hmem h

/-- A token that is asked for is there; if it were not, the parser would give up. -/
theorem yields_expect {kind : TokenKind} {message : String} {tok : Token} :
    (expect kind message).Yields s tok t ↔ tok.kind = kind ∧ s = t.unread [tok] := by
  simp only [expect, yields_bind]
  constructor
  · rintro ⟨o, u, haccept, hrest⟩
    cases o with
    | none => exact absurd hrest not_yields_unexpected
    | some tok' =>
      obtain ⟨rfl, rfl⟩ := yields_pure.1 hrest
      obtain ⟨hmem, rfl⟩ := yields_accept_some.1 haccept
      exact ⟨List.mem_singleton.1 hmem, rfl⟩
  · rintro ⟨rfl, rfl⟩
    exact ⟨some tok, t, yields_accept_some.2 ⟨List.mem_singleton_self _, rfl⟩,
      yields_pure.2 ⟨rfl, rfl⟩⟩

/-- What is read inside a function is read in the marked state, and the mark is taken away again. -/
theorem yields_withinFunction {p : ListParser α} {a : α} :
    (withinFunction p).Yields s a t ↔
      ∃ u, p.Yields (s.within true) a u ∧ t = u.within s.inFunction := by
  simp only [Yields, withinFunction]
  constructor
  · rintro ⟨hresult, rfl, hnotes⟩
    exact ⟨_, ⟨hresult, rfl, hnotes⟩, rfl⟩
  · rintro ⟨_, ⟨hresult, rfl, hnotes⟩, rfl⟩
    exact ⟨hresult, rfl, hnotes⟩

/-- With a result, a parser that recovers has not had to. -/
theorem yields_recovering_some {p : ListParser α} {a : α} :
    (recovering p).Yields s (some a) t ↔ p.Yields s a t := by
  simp only [Yields, recovering]
  obtain ⟨result, state, notes⟩ := p s
  cases result with
  | error e => simp
  | ok b => simp

/-- Recovery is never clean, because the error that it recovers from is noted. -/
theorem not_yields_recovering_none {p : ListParser α} : ¬(recovering p).Yields s none t := by
  simp only [Yields, recovering]
  obtain ⟨result, state, notes⟩ := p s
  cases result with
  | error e =>
    rintro ⟨-, -, hnotes⟩
    exact absurd (List.append_eq_nil_iff.1 hnotes).2 (by simp)
  | ok b => simp

/-! ## Readings of lists -/

theorem yields_many_zero {p : ListParser (Option α)} {as : List α} :
    (many p 0).Yields s as t ↔ as = [] ∧ s = t := by
  rw [many, exhausted_list, yields_pure, eq_comm]

/-- One round of a repetition: it stops because nothing more is found, or finds an item and goes on
with a bound that is one smaller. -/
theorem yields_many_succ {p : ListParser (Option α)} {bound : Nat} {as : List α} :
    (many p (bound + 1)).Yields s as t ↔
      (p.Yields s none t ∧ as = []) ∨
        ∃ a rest u, p.Yields s (some a) u ∧ (many p bound).Yields u rest t ∧ as = a :: rest := by
  simp only [many, yields_bind]
  constructor
  · rintro ⟨o, u, ho, hrest⟩
    cases o with
    | none =>
      obtain ⟨rfl, rfl⟩ := yields_pure.1 hrest
      exact .inl ⟨ho, rfl⟩
    | some a =>
      obtain ⟨rest, _, hmany, hpure⟩ := yields_bind.1 hrest
      obtain ⟨rfl, rfl⟩ := yields_pure.1 hpure
      exact .inr ⟨a, rest, u, ho, hmany, rfl⟩
  · rintro (⟨ho, rfl⟩ | ⟨a, rest, u, ho, hmany, rfl⟩)
    · exact ⟨none, t, ho, yields_pure.2 ⟨rfl, rfl⟩⟩
    · exact ⟨some a, u, ho, yields_bind.2 ⟨rest, t, hmany, yields_pure.2 ⟨rfl, rfl⟩⟩⟩

/-- At the end of its bound the list has one more item, and no comma is looked for. -/
theorem yields_commaList_zero {item : List α → ListParser α} {before as : List α} :
    (commaList item 0 before).Yields s as t ↔
      ∃ a, (item before).Yields s a t ∧ as = before ++ [a] := by
  simp only [commaList, exhausted_list, yields_bind, yields_pure]
  constructor
  · rintro ⟨a, _, ha, rfl, rfl⟩
    exact ⟨a, ha, rfl⟩
  · rintro ⟨a, ha, rfl⟩
    exact ⟨a, t, ha, rfl, rfl⟩

/-- One round of a list with commas: the item, and then either no comma, which ends the list, or a
comma and the rest of the list. -/
theorem yields_commaList_succ {item : List α → ListParser α} {bound : Nat} {before as : List α} :
    (commaList item (bound + 1) before).Yields s as t ↔
      ∃ a u, (item before).Yields s a u ∧
        ((u.Avoids [.comma] ∧ u = t ∧ as = before ++ [a]) ∨
          ∃ comma u', comma.kind = .comma ∧ u = u'.unread [comma] ∧
            (commaList item bound (before ++ [a])).Yields u' as t) := by
  simp only [commaList, yields_bind]
  constructor
  · rintro ⟨a, u, ha, o, u', ho, hrest⟩
    -- Whether a comma was taken is the only choice here.
    refine ⟨a, u, ha, ?_⟩
    cases o with
    | none =>
      obtain ⟨havoid, rfl⟩ := yields_accept_none.1 ho
      obtain ⟨rfl, rfl⟩ := yields_pure.1 hrest
      exact .inl ⟨havoid, rfl, rfl⟩
    | some comma =>
      obtain ⟨hkind, rfl⟩ := yields_accept_some.1 ho
      exact .inr ⟨comma, u', List.mem_singleton.1 hkind, rfl, hrest⟩
  · rintro ⟨a, u, ha, ⟨havoid, rfl, rfl⟩ | ⟨comma, u', hkind, rfl, hrest⟩⟩
    · exact ⟨a, u, ha, none, u, yields_accept_none.2 ⟨havoid, rfl⟩, yields_pure.2 ⟨rfl, rfl⟩⟩
    · exact ⟨a, _, ha, some comma, u',
        yields_accept_some.2 ⟨List.mem_singleton.2 hkind, rfl⟩, hrest⟩

/-- A list in parentheses is empty exactly if the closing parenthesis comes next. -/
theorem yields_items {item : List α → ListParser α} {bound : Nat} {as : List α} :
    (items bound item).Yields s as t ↔
      (¬s.Avoids [.rightParen] ∧ as = [] ∧ s = t) ∨
        (s.Avoids [.rightParen] ∧ (commaList item bound []).Yields s as t) := by
  simp only [items, yields_bind, yields_ite, yields_pure, yields_check]
  constructor
  · rintro ⟨b, _, ⟨hb, rfl⟩, ⟨rfl, rfl, rfl⟩ | ⟨hf, hlist⟩⟩
    · exact .inl ⟨fun havoid => absurd (hb.2 havoid) (by simp), rfl, rfl⟩
    · exact .inr ⟨hb.1 (by simpa using hf), hlist⟩
  · rintro (⟨havoid, rfl, rfl⟩ | ⟨havoid, hlist⟩)
    · exact ⟨true, s, ⟨by simp [havoid], rfl⟩, .inl ⟨rfl, rfl, rfl⟩⟩
    · exact ⟨false, s, ⟨by simp [havoid], rfl⟩, .inr ⟨by simp, hlist⟩⟩

end

/-! ## Items that depend on those before them -/

/-- Each of the items fits behind those before it, of which the first ones are given. -/
def Successive {α : Type} (Fits : List α → α → Prop) : (before as : List α) → Prop
  | _, [] => True
  | before, a :: as => Fits before a ∧ Successive Fits (before ++ [a]) as

theorem successive_and {α : Type} {Fits Fits' : List α → α → Prop} {before as : List α} :
    Successive (fun before a => Fits before a ∧ Fits' before a) before as ↔
      Successive Fits before as ∧ Successive Fits' before as := by
  induction as generalizing before with
  | nil => simp [Successive]
  | cons a as ih => simp only [Successive, ih]; exact and_and_and_comm

/-- Bounding the number of items before each item bounds the number of all items. -/
theorem successive_length {α : Type} {bound : Nat} {before as : List α}
    (hbefore : before.length ≤ bound) :
    Successive (fun before _ => before.length < bound) before as ↔
      (before ++ as).length ≤ bound := by
  induction as generalizing before with
  | nil => simpa [Successive] using hbefore
  | cons a as ih =>
    simp only [Successive]
    constructor
    · rintro ⟨hlt, hrest⟩
      simpa using (ih (by rw [List.length_append]; exact hlt)).1 hrest
    · intro h
      have hlt : before.length < bound := by
        simp only [List.length_append, List.length_cons] at h
        omega
      exact ⟨hlt, (ih (by rw [List.length_append]; exact hlt)).2 (by simpa using h)⟩

/-- If each item has a name that none before it has, no two items have the same name. -/
theorem successive_nodup {α β : Type} {f : α → β} {before as : List α}
    (hbefore : (before.map f).Nodup) :
    Successive (fun before a => f a ∉ before.map f) before as ↔
      ((before ++ as).map f).Nodup := by
  induction as generalizing before with
  | nil => simpa [Successive] using hbefore
  | cons a as ih =>
    -- The item joins those before it, and its name must be none of theirs.
    have hsnoc : ((before ++ [a]).map f).Nodup ↔ f a ∉ before.map f := by
      rw [List.map_append, List.map_singleton, List.nodup_append]
      constructor
      · rintro ⟨-, -, hne⟩ hmem
        exact hne _ hmem _ (List.mem_singleton_self _) rfl
      · intro hnew
        refine ⟨hbefore, by simp, ?_⟩
        rintro x hx y hy rfl
        exact hnew (List.mem_singleton.1 hy ▸ hx)
    simp only [Successive]
    constructor
    · rintro ⟨hnew, hrest⟩
      simpa using (ih (hsnoc.2 hnew)).1 hrest
    · intro h
      rw [List.append_cons, List.map_append] at h
      have hnodup := (List.nodup_append.1 h).1
      refine ⟨hsnoc.1 hnodup, (ih hnodup).2 ?_⟩
      rwa [List.map_append]

end Treewalk.Parser
