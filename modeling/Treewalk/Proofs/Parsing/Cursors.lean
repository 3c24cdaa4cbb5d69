import Treewalk.Proofs.Parsing.Bounds

/-!
# Cursors seen as lists of tokens

A cursor stands in front of the tokens from its index up to the first end of the input at or behind
it. `Cursor.view` is this list, and every operation of the cursor is an operation on the list. So a
parser at a cursor does what it does at the list, and a bound above the number of tokens left is not
used up.

The index itself is not part of the list. `Cursor.Reaches` says what becomes of it: it does not
decrease, and the end that is met first stays the same.
-/

namespace Treewalk

namespace Parser

/-! ## Indices -/

/-- The index of the token that ends the input, or the number of tokens if none does. -/
def endIndex (tokens : List Token) : Nat :=
  tokens.findIdx fun t => t.kind = .eof

/-- The token with this index. Behind the last token there is an end of input. -/
def tokenAt (tokens : List Token) (i : Nat) : Token :=
  tokens.getD i (.endOfInput 0)

/-- The tokens left at the start are those before the first end of the input. -/
theorem start_rest_eq (tokens : List Token) :
    (State.start tokens).rest = tokens.take (endIndex tokens) := by
  have h : tokens.takeWhile (fun t => decide (t.kind ≠ .eof)) =
      tokens.take (tokens.findIdx fun t => !decide (t.kind ≠ .eof)) :=
    List.takeWhile_eq_take_findIdx_not
  simpa [State.start, endIndex] using h

theorem length_start_rest (tokens : List Token) :
    (State.start tokens).rest.length = endIndex tokens := by
  rw [start_rest_eq, List.length_take]
  exact Nat.min_eq_left List.findIdx_le_length

/-! ## States in front of all tokens -/

/-- The first token is the current one, also if it is the end. -/
theorem State.start_current (tokens : List Token) :
    (State.start tokens).current = tokens.headD (.endOfInput 0) := by
  cases tokens with
  | nil => rfl
  | cons t tokens => by_cases ht : t.kind = .eof <;> simp [State.start, State.current, ht]

/-- At the end of the input nothing is left. -/
theorem State.start_rest_eq_nil {tokens : List Token}
    (h : (tokens.headD (.endOfInput 0)).kind = .eof) : (State.start tokens).rest = [] := by
  cases tokens with
  | nil => rfl
  | cons t tokens =>
    have ht : t.kind = .eof := h
    simp [State.start, ht]

theorem State.start_cons {t : Token} (ht : t.kind ≠ .eof) (tokens : List Token) :
    State.start (t :: tokens) = (State.start tokens).unread [t] := by
  simp [State.start, State.unread, ht]

/-- Behind the first tokens, up to the end of the input, the others are left. -/
theorem State.start_drop {tokens : List Token} {i : Nat} (h : i ≤ endIndex tokens) :
    State.start (tokens.drop i) =
      { State.start tokens with rest := (State.start tokens).rest.drop i } := by
  induction i generalizing tokens with
  | zero => rfl
  | succ i ih =>
    cases tokens with
    | nil => exact absurd h (Nat.not_succ_le_zero i)
    | cons t tokens =>
      by_cases ht : t.kind = .eof
      · simp [endIndex, List.findIdx_cons, ht] at h
      · have hle : i ≤ endIndex tokens := by simpa [endIndex, List.findIdx_cons, ht] using h
        rw [List.drop_succ_cons, ih hle, State.start_cons ht]
        rfl

namespace Cursor

/-! ## What a cursor shows -/

/-- The tokens from the index up to the first end of the input. -/
def view (c : Cursor) : State :=
  (State.start (c.tokens.toList.drop c.index)).within c.inFunction

/-- The number of tokens left. -/
def left (c : Cursor) : Nat :=
  c.view.rest.length

/-- Looking a token up by its index is looking at the front of what is left from there. -/
theorem tokenAt_eq (c : Cursor) (i : Nat) :
    c.tokenAt i = (c.tokens.toList.drop i).headD (.endOfInput 0) := by
  rw [tokenAt, List.headD_eq_head?_getD, List.head?_drop, Array.getElem?_toList]
  exact Array.getD_eq_getD_getElem?

/-- The token at the index is the next one of the list. -/
theorem current_eq_view (c : Cursor) : c.current = c.view.current := by
  rw [current, tokenAt_eq]
  exact (State.start_current _).symm

/-- Nothing of the list is left once the cursor is at the end, whatever stands behind it. -/
theorem view_rest_of_atEnd {c : Cursor} (h : c.atEnd = true) : c.view.rest = [] := by
  refine State.start_rest_eq_nil ?_
  rw [← tokenAt_eq]
  exact of_decide_eq_true h

section
variable {c : Cursor} (h : c.atEnd = false)
include h

theorem advance_eq : c.advance = { c with index := c.index + 1 } := by
  simp [advance, h]

/-- The token passed over is the one that was current. -/
theorem previous_advance : c.advance.previous = c.current := by
  rw [advance_eq h]
  rfl

/-- Where the cursor is not at the end, the next token is the first of the list. -/
theorem view_eq_unread : c.view = c.advance.view.unread [c.current] := by
  have hlt : c.index < c.tokens.toList.length := index_lt_of_atEnd h
  have hkind : c.current.kind ≠ .eof := of_decide_eq_false h
  have hcurrent : c.tokens.toList.get ⟨c.index, hlt⟩ = c.current := by
    rw [current, tokenAt_eq, List.drop_eq_getElem_cons hlt]
    rfl
  have hdrop : c.tokens.toList.drop c.index =
      c.current :: c.tokens.toList.drop (c.index + 1) := by
    rw [← hcurrent]
    exact List.drop_eq_getElem_cons hlt
  rw [advance_eq h, view, hdrop, State.start_cons hkind]
  rfl

/-- Advancing takes the current token off the list. -/
theorem view_rest_cons : c.view.rest = c.current :: c.advance.view.rest :=
  congrArg State.rest (view_eq_unread h)

end

theorem atEnd_eq_view (c : Cursor) : c.atEnd = c.view.rest.isEmpty := by
  cases h : c.atEnd with
  | true => rw [view_rest_of_atEnd h]; rfl
  | false => rw [view_rest_cons h]; rfl

/-- The test for a kind says no at the end of the input, as it does on the empty list. It would do
so for the kind of the end itself, too. -/
theorem check_eq_view (kind : TokenKind) (c : Cursor) :
    c.check [kind] = c.view.rest.head?.any fun t => t.kind = kind := by
  cases h : c.atEnd with
  | true => simp [check, h, view_rest_of_atEnd h]
  | false => simp [check, h, view_rest_cons h]

/-- A token is taken off the list if and only if the cursor advances over it. -/
theorem take?_eq_view (kinds : List TokenKind) (c : Cursor) :
    (c.take? kinds).map (Prod.map id view) = c.view.take? kinds := by
  cases h : c.atEnd with
  | true => simp [take?, check, h, State.take?, view_rest_of_atEnd h]
  | false =>
    -- Advancing changes nothing of the view but the tokens.
    have hview : { c.view with rest := c.advance.view.rest } = c.advance.view := by
      rw [view_eq_unread h]
      rfl
    by_cases hkind : c.current.kind ∈ kinds
    · simp [take?, check, h, State.take?, view_rest_cons h, hkind, hview]
    · simp [take?, check, h, State.take?, view_rest_cons h, hkind]

/-- The words at which recovery stops are the same on both sides. -/
theorem check_statementStarts {c : Cursor} (h : c.atEnd = false) :
    c.check statementStarts = startsStatement c.current.kind := by
  simp [check, h, statementStarts, startsStatement, Bool.or_assoc]

theorem view_advance {c : Cursor} (h : c.atEnd = false) :
    c.advance.view = { c.view with rest := c.advance.view.rest } := by
  rw [view_eq_unread h]
  rfl

/-- The boundary that the cursor finds is the one in the list. -/
theorem boundary_view (c : Cursor) :
    c.boundary.view = { c.view with rest := Parser.boundary c.previous c.view.rest } := by
  fun_induction boundary c with
  | case1 c hend =>
    have hrest := view_rest_of_atEnd hend
    simp only [hrest, Parser.boundary]
    rw [← hrest]
  | case2 c hend hsemicolon =>
    have hcons := view_rest_cons (Bool.eq_false_iff.2 hend)
    simp only [hcons, Parser.boundary, hsemicolon, decide_true, Bool.true_or, if_true]
    rw [← hcons]
  | case3 c hend hsemicolon hstart =>
    have hend := Bool.eq_false_iff.2 hend
    have hcons := view_rest_cons hend
    rw [check_statementStarts hend] at hstart
    simp only [hcons, Parser.boundary, hstart, Bool.or_true, if_true]
    rw [← hcons]
  | case4 c hend hsemicolon hstart ih =>
    have hend := Bool.eq_false_iff.2 hend
    have hcons := view_rest_cons hend
    rw [check_statementStarts hend] at hstart
    rw [ih, previous_advance hend, view_advance hend, hcons]
    simp [Parser.boundary, hsemicolon, hstart]

/-- Recovery leaves the same tokens on both sides. At the end of the input it leaves the cursor
where it is. -/
theorem synchronize_view (c : Cursor) :
    c.synchronize.view = { c.view with rest := Parser.synchronize c.view.rest } := by
  rw [synchronize, boundary_view]
  cases h : c.atEnd with
  | true =>
    have hadvance : c.advance = c := by simp [advance, h]
    rw [hadvance, view_rest_of_atEnd h]
    rfl
  | false =>
    rw [previous_advance h, view_advance h, view_rest_cons h]
    rfl

end Cursor

instance : View Cursor where
  view := Cursor.view
  spare := 1
  current_eq := Cursor.current_eq_view
  atEnd_eq := Cursor.atEnd_eq_view
  check_eq := Cursor.check_eq_view
  take?_eq := Cursor.take?_eq_view
  synchronize_eq := Cursor.synchronize_view
  inFunction_eq _ := rfl
  within_eq _ _ := rfl
  refused?_refusal _ := rfl
  boundReached_eq h := absurd h Nat.one_ne_zero

/-! ## Where a cursor goes -/

/-- The cursor can get to the other one: over the same tokens, forward, not behind the end of the
input that it meets first, and with the same mark for bodies of functions. -/
structure Cursor.Reaches (c c' : Cursor) : Prop where
  tokens_eq : c'.tokens = c.tokens
  index_le : c.index ≤ c'.index
  end_eq : c'.index + c'.left = c.index + c.left
  inFunction_eq : c'.inFunction = c.inFunction

namespace Cursor.Reaches

theorem refl (c : Cursor) : c.Reaches c :=
  ⟨rfl, Nat.le_refl _, rfl, rfl⟩

/-- What can be reached in two steps can be reached. -/
theorem trans {c c' c'' : Cursor} (h : c.Reaches c') (h' : c'.Reaches c'') : c.Reaches c'' where
  tokens_eq := h'.tokens_eq.trans h.tokens_eq
  index_le := Nat.le_trans h.index_le h'.index_le
  end_eq := h'.end_eq.trans h.end_eq
  inFunction_eq := h'.inFunction_eq.trans h.inFunction_eq

/-- The mark is set for a while, and then set back. -/
theorem within {c c' : Cursor} {fn : Bool} (h : Reaches { c with inFunction := fn } c') :
    c.Reaches { c' with inFunction := c.inFunction } :=
  ⟨h.tokens_eq, h.index_le, h.end_eq, rfl⟩

/-- The guard of `Cursor.advance` is what keeps a cursor from passing the end. -/
theorem advance (c : Cursor) : c.Reaches c.advance := by
  cases h : c.atEnd with
  | true =>
    have hadvance : c.advance = c := by simp [Cursor.advance, h]
    rw [hadvance]
    exact refl c
  | false =>
    have hlength : c.left = c.advance.left + 1 := congrArg List.length (view_rest_cons h)
    have hadvance := advance_eq h
    have hindex : c.advance.index = c.index + 1 := by rw [hadvance]
    exact ⟨by rw [hadvance], by omega, by omega, by rw [hadvance]⟩

/-- The search for a boundary advances and does nothing else. -/
theorem boundary (c : Cursor) : c.Reaches c.boundary := by
  fun_induction Cursor.boundary c with
  | case1 c _ => exact refl c
  | case2 c _ _ => exact refl c
  | case3 c _ _ _ => exact refl c
  | case4 c _ _ _ ih => exact (advance c).trans ih

theorem synchronize (c : Cursor) : c.Reaches c.synchronize :=
  (advance c).trans (boundary c.advance)

/-- Taking a token is one advance, and only with a token left. -/
theorem accept (kinds : List TokenKind) (c : Cursor) : c.Reaches (accept kinds c).state := by
  cases h : c.check kinds with
  | true =>
    have htake : Reader.take? kinds c = some (c.current, c.advance) := if_pos h
    simp only [Parser.accept, htake]
    exact advance c
  | false =>
    have htake : Reader.take? kinds c = none := if_neg (by simp [h])
    simp only [Parser.accept, htake]
    exact refl c

end Cursor.Reaches

/-- However a parser is built, it goes forward, not behind the end, and leaves the mark for bodies
of functions as it was. This holds for any bound, also for one that is used up. -/
theorem Built.reaches {K : TokenKind → Prop} {α : Type} {p : Parser Cursor Halt α}
    (h : Built K p) (c : Cursor) : c.Reaches (p c).state := by
  induction h generalizing c with
  | @bind _ _ p f _ _ ihp ihf =>
    cases hr : (p c).result with
    | error e =>
      rw [bind_error hr]
      exact ihp c
    | ok a =>
      rw [bind_ok hr]
      exact (ihp c).trans (ihf a _)
  | accept _ => exact .accept _ c
  | withinFunction _ ih => exact .within (ih _)
  | exhausted _ _ => exact .refl c
  | @recovering _ p _ _ ih =>
    cases hr : (p c).result with
    | ok a =>
      rw [recovering_ok hr]
      exact ih c
    | error e =>
      cases hu : Reader.refused? Cursor e with
      | none =>
        rw [recovering_halted hr hu]
        exact ih c
      | some u =>
        rw [recovering_refused hr hu]
        exact (ih c).trans (.synchronize _)
  | pure | peek | check | atEnd | unexpected | report | inFunction => exact .refl c

end Parser

/-! ## Parsing programs -/

open Treewalk.Parser in
/-- A program is what the list of its tokens is parsed to. -/
theorem parse_eq (tokens : List Token) :
    parse tokens = (program (State.start tokens).rest.length (State.start tokens)).program := by
  have hle : endIndex tokens ≤ tokens.length := List.findIdx_le_length
  have hlength := length_start_rest tokens
  -- The bound that runs is one above the number of all tokens, and those up to the first end are
  -- not more; so it is not used up.
  have hagree : Agree (State.start tokens).rest.length
      (program (tokens.length + 1) : Parser Parser.Cursor Halt (List Stmt))
      (program (State.start tokens).rest.length) :=
    program_agree (by change _ + 1 ≤ _; omega) (Nat.le_refl _)
  obtain ⟨hresult, -, hnotes⟩ := hagree.shows (Parser.Cursor.start tokens) (Nat.le_refl _)
  have hok : (program (tokens.length + 1) (Parser.Cursor.start tokens)).result.toOption =
      (program (State.start tokens).rest.length (State.start tokens)).result.toOption := by
    rw [hresult]
    change (Except.mapError _ (program _ (State.start tokens)).result).toOption = _
    cases (program (State.start tokens).rest.length (State.start tokens)).result <;> rfl
  rw [parse, Reply.program, hok, hnotes]
  rfl

end Treewalk
