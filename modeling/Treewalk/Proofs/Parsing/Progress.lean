import Treewalk.Proofs.Parsing.Places

/-!
# Progress

A cursor only moves forward, and never behind the first end of the input. A declaration takes at
least one token, also if it is given up. So parsing comes to an end by itself, before any bound is
used up, and the parser of programs comes to the end of the input. What stands behind that is not
read.
-/

namespace Treewalk

namespace Parser

/-! ## Bounds at a cursor -/

/-- A bound of more than `n` is not used up at the cursor, and all such bounds give the same reply.
-/
def EndsWithin {α : Type} (n : Nat) (p : Nat → Parser Cursor Halt α) (c : Cursor) : Prop :=
  ∀ bound, n < bound → (p bound c).result ≠ .error .boundReached ∧ p bound c = p (n + 1) c

section
variable {α : Type} {r r' : Reply Cursor Halt α} {l : ListReply α}

/-- What is done with the list of the tokens left does not use up a bound. -/
theorem Reply.Shows.result_ne (h : r.Shows l) : r.result ≠ .error .boundReached := by
  rw [h.result_eq]
  cases l.result <;> exact nofun

/-- A cursor shows how many tokens are left, and so where it is among those that can be reached. -/
theorem Cursor.Reaches.eq_of_view {c c' c'' : Cursor} (h : c.Reaches c') (h' : c.Reaches c'')
    (hview : c'.view = c''.view) : c' = c'' := by
  have htokens : c'.tokens = c''.tokens := h.tokens_eq.trans h'.tokens_eq.symm
  have hleft : c'.left = c''.left := congrArg (·.rest.length) hview
  have hindex : c'.index = c''.index := by
    have hend := h.end_eq
    have hend' := h'.end_eq
    omega
  have hfn : c'.inFunction = c''.inFunction := h.inFunction_eq.trans h'.inFunction_eq.symm
  change Cursor.mk c'.tokens c'.index c'.inFunction = Cursor.mk c''.tokens c''.index c''.inFunction
  rw [htokens, hindex, hfn]

/-- Two cursors that have come from the same one and are seen as the same list are the same, so that
a list determines the reply. -/
theorem Reply.Shows.unique {c : Cursor} (h : r.Shows l) (h' : r'.Shows l)
    (hreaches : c.Reaches r.state) (hreaches' : c.Reaches r'.state) : r = r' := by
  have hstate := hreaches.eq_of_view hreaches' (h.view_eq.trans h'.view_eq.symm)
  change Reply.mk r.result r.state r.notes = Reply.mk r'.result r'.state r'.notes
  rw [hstate, h.result_eq, h'.result_eq, h.notes_eq, h'.notes_eq]

/-- A parser that does the same as one for lists, if more bounds are left than tokens, comes to an
end before its bound is used up. -/
theorem EndsWithin.of_agree {K : TokenKind → Prop} {p : Nat → Parser Cursor Halt α}
    {q : Nat → ListParser α} (hbuilt : ∀ bound, Built K (p bound))
    (hagree : ∀ {n bound}, n + 1 ≤ bound → Agree n (p bound) (q n)) (c : Cursor) :
    EndsWithin c.left p c := by
  intro bound hbound
  have hshows := (hagree hbound).shows c (Nat.le_refl _)
  have htight := (hagree (Nat.le_refl (c.left + 1))).shows c (Nat.le_refl _)
  exact ⟨hshows.result_ne, hshows.unique htight ((hbuilt _).reaches c) ((hbuilt _).reaches c)⟩

end

theorem expression_ends (c : Cursor) : EndsWithin c.left expression c :=
  .of_agree expression_built (fun h => expression_agree h (Nat.le_refl _)) c

/-- Statements end within the number of tokens left. -/
theorem statement_ends (c : Cursor) : EndsWithin c.left statement c :=
  .of_agree (fun bound => (statement_built bound).1)
    (fun h => (statement_agree h (Nat.le_refl _)).1) c

theorem declaration_ends (c : Cursor) : EndsWithin c.left declaration c :=
  .of_agree (fun bound => (statement_built bound).2)
    (fun h => (statement_agree h (Nat.le_refl _)).2) c

theorem program_ends (c : Cursor) : EndsWithin c.left program c :=
  .of_agree program_built (fun h => program_agree h (Nat.le_refl _)) c

/-! ## Indices -/

section
variable {tokens : List Token} {c : Cursor}

/-- The token a cursor stands in front of is the one with its index. -/
theorem Cursor.current_eq_tokenAt (htokens : c.tokens = tokens.toArray) :
    c.current = Parser.tokenAt tokens c.index := by
  rw [Cursor.current, Cursor.tokenAt, htokens, Array.getD_eq_getD_getElem?,
    List.getElem?_toArray, Parser.tokenAt, List.getD_eq_getElem?_getD]

/-- The index and the number of tokens left add up to the index of the end. -/
theorem Cursor.index_add_left (htokens : c.tokens = tokens.toArray)
    (hle : c.index ≤ endIndex tokens) : c.index + c.left = endIndex tokens :=
  (Cursor.view_at htokens hle).length_eq

/-- However a parser is built, it goes forward, up to the first end of the input at most. -/
theorem Built.index_between {K : TokenKind → Prop} {α : Type} {p : Parser Cursor Halt α}
    (h : Built K p) (htokens : c.tokens = tokens.toArray) (hle : c.index ≤ endIndex tokens) :
    (p c).state.tokens = tokens.toArray ∧ c.index ≤ (p c).state.index ∧
      (p c).state.index ≤ endIndex tokens := by
  have hreaches := h.reaches c
  exact ⟨hreaches.tokens_eq.trans htokens, hreaches.index_le,
    (hreaches.view_at htokens hle).le⟩

end

/-! ## Declarations -/

/-- A declaration takes a token: it is read, or given up behind that token. -/
theorem declaration_advances {c : Cursor} (hend : c.current.kind ≠ .eof) {bound : Nat}
    (hbound : c.left < bound) :
    ∃ o, (declaration bound c).result = .ok o ∧ c.index < (declaration bound c).state.index := by
  have hagree : Agree c.left (declaration bound : Parser Cursor Halt (Option Stmt))
      (declaration c.left) := (statement_agree hbound (Nat.le_refl _)).2
  obtain ⟨hresult, hview, -⟩ := hagree.shows c (Nat.le_refl _)
  obtain ⟨o, ho⟩ := total_declaration c.left c.view
  have hrest : c.view.rest ≠ [] := by
    rw [Cursor.view_rest_cons (decide_eq_false hend)]
    exact List.cons_ne_nil _ _
  have hshorter := declaration_length_lt c.left hrest
  have hleft : (declaration bound c).state.left < c.left := by
    have hlength : (declaration bound c).state.left =
        (declaration c.left c.view).state.rest.length := congrArg (·.rest.length) hview
    rw [hlength]
    exact hshorter
  refine ⟨o, ?_, ?_⟩
  · rw [hresult]
    exact congrArg (Except.mapError _) ho
  · have hsum := ((statement_built bound).2.reaches c).end_eq
    omega

/-! ## Programs -/

/-- With as many rounds as there are tokens, the last of them is reached. -/
theorem many_program_next_rest (bound : Nat) {s : State} {rounds : Nat}
    (h : s.rest.length ≤ rounds) : (many (program.next bound) rounds s).state.rest = [] := by
  induction rounds generalizing s with
  | zero => exact List.eq_nil_of_length_eq_zero (Nat.le_zero.1 h)
  | succ rounds ih =>
    by_cases hs : s.rest = []
    · rw [many_silent (program_next_nil hs bound) (Nat.zero_le _)]
      exact hs
    · -- The declaration takes a token, so one round less is still enough for the rest.
      obtain ⟨o, ho⟩ := total_declaration bound s
      have hshorter := declaration_length_lt bound hs
      obtain ⟨found, hfound⟩ :=
        total_many (total_program_next bound) rounds (declaration bound s).state
      have hnext : program.next bound s =
          ⟨.ok (some o), (declaration bound s).state, (declaration bound s).notes⟩ := by
        rw [program_next_cons hs, map_ok _ ho]
      rw [many_cons hnext hfound]
      exact ih (by omega)

/-- The parser of programs comes to the end of the input. -/
theorem program_rest {bound : Nat} {s : State} (h : s.rest.length ≤ bound) :
    (program bound s).state.rest = [] := by
  change ((_ <$> many (program.next bound) bound) s).state.rest = _
  rw [map_state]
  exact many_program_next_rest bound h

/-- Parsing a program stops at the first end of the input, with the statements of the program. -/
theorem program_start (tokens : List Token) :
    (program (tokens.length + 1) (Cursor.start tokens)).result = .ok (parse tokens).statements ∧
      (program (tokens.length + 1) (Cursor.start tokens)).state.index = endIndex tokens := by
  have hle : endIndex tokens ≤ tokens.length := List.findIdx_le_length
  have hlength := length_start_rest tokens
  have hagree : Agree (endIndex tokens) (program (tokens.length + 1) : Parser Cursor Halt _)
      (program (endIndex tokens)) := program_agree (Nat.succ_le_succ hle) (Nat.le_refl _)
  obtain ⟨hresult, hview, -⟩ := hagree.shows (Cursor.start tokens) (Nat.le_of_eq hlength)
  constructor
  · obtain ⟨statements, hok⟩ := total_program (endIndex tokens) (State.start tokens)
    have hread : (program (tokens.length + 1) (Cursor.start tokens)).result = .ok statements :=
      hresult.trans (congrArg (Except.mapError _) hok)
    rw [parse, Reply.program, hread]
    rfl
  · have hrest := program_rest (Nat.le_of_eq hlength)
    have hleft : (program (tokens.length + 1) (Cursor.start tokens)).state.left = 0 :=
      congrArg List.length ((congrArg State.rest hview).trans hrest)
    have hsum := ((program_built (tokens.length + 1)).reaches (Cursor.start tokens)).end_eq
    have hstart : (Cursor.start tokens).index + (Cursor.start tokens).left = endIndex tokens :=
      Cursor.index_add_left rfl (Nat.zero_le _)
    omega

/-! ## The first end of the input -/

theorem State.start_congr {tokens tokens' : List Token}
    (hrest : (State.start tokens).rest = (State.start tokens').rest)
    (hstop : (State.start tokens).stop = (State.start tokens').stop) :
    State.start tokens = State.start tokens' := by
  simp only [State.start, State.mk.injEq] at *
  exact ⟨hrest, hstop, trivial⟩

/-- Behind an end of the input nothing is looked at. -/
theorem State.start_append_eof (tokens : List Token) {e : Token} (he : e.kind = .eof)
    (rest : List Token) : State.start (tokens ++ e :: rest) = State.start (tokens ++ [e]) := by
  refine State.start_congr ?_ ?_
  · simp only [State.start]
    induction tokens with
    | nil => simp [he]
    | cons t tokens ih => by_cases ht : t.kind = .eof <;> simp_all
  · simp [State.start, List.find?_append, he]

/-- A missing end is taken to be there. -/
theorem State.start_append_endOfInput {tokens : List Token} (h : ∀ t ∈ tokens, t.kind ≠ .eof) :
    State.start (tokens ++ [.endOfInput 0]) = State.start tokens := by
  have hfind : tokens.find? (fun t => decide (t.kind = .eof)) = none := by simpa using h
  refine State.start_congr ?_ ?_
  · rw [State.start_append h]
    exact List.append_nil _
  · simp [State.start, List.find?_append, hfind, Token.endOfInput]

end Parser

open Treewalk.Parser

/-- Parsing always ends, and reads exactly up to the first end of the input.

* At every index up to the end, the next token is the one with that index. Expressions, statements
  and declarations are read from there without using up any bound above the number of tokens left,
  and so no bound decides when reading ends. The same holds for programs.
* No parser goes back or behind the end, and those for expressions, statements, declarations and
  programs are such parsers.
* A declaration that is tried in front of another token than the end takes a token, be it read or
  given up.
* Parsing gives a program and stops exactly at the end.
* So what stands behind the end does not matter, and an end that is missing might as well be there,
  on line zero. -/
theorem parse_reads_up_to_end (tokens : List Token) :
    (∀ c : Parser.Cursor, c.tokens = tokens.toArray → c.index ≤ endIndex tokens →
      c.current = tokenAt tokens c.index ∧
      EndsWithin (endIndex tokens - c.index) expression c ∧
      EndsWithin (endIndex tokens - c.index) statement c ∧
      EndsWithin (endIndex tokens - c.index) declaration c) ∧
    EndsWithin (endIndex tokens) program (Parser.Cursor.start tokens) ∧
    (∀ (K : TokenKind → Prop) (α : Type) (p : Parser Parser.Cursor Halt α), Built K p →
      ∀ c : Parser.Cursor, c.tokens = tokens.toArray → c.index ≤ endIndex tokens →
        (p c).state.tokens = tokens.toArray ∧ c.index ≤ (p c).state.index ∧
        (p c).state.index ≤ endIndex tokens) ∧
    (∀ bound, Built (fun _ => True) (expression bound : Parser Parser.Cursor Halt Expr) ∧
      Built (fun _ => True) (statement bound : Parser Parser.Cursor Halt Stmt) ∧
      Built (fun _ => True) (declaration bound : Parser Parser.Cursor Halt (Option Stmt)) ∧
      Built (fun _ => True) (program bound : Parser Parser.Cursor Halt (List Stmt))) ∧
    (∀ (c : Parser.Cursor) (bound : Nat), c.tokens = tokens.toArray → c.index ≤ endIndex tokens →
      (tokenAt tokens c.index).kind ≠ .eof → endIndex tokens - c.index < bound →
      ∃ o, (declaration bound c).result = .ok o ∧ c.index < (declaration bound c).state.index) ∧
    (program (tokens.length + 1) (Parser.Cursor.start tokens)).result =
      .ok (parse tokens).statements ∧
    (program (tokens.length + 1) (Parser.Cursor.start tokens)).state.index = endIndex tokens ∧
    (∀ e rest, e.kind = .eof → parse (tokens ++ e :: rest) = parse (tokens ++ [e])) ∧
    ((∀ t ∈ tokens, t.kind ≠ .eof) → parse tokens = parse (tokens ++ [.endOfInput 0])) := by
  refine ⟨fun c htokens hle => ?_, ?_, fun K α p hp c => hp.index_between, fun bound => ?_,
    fun c bound htokens hle hkind hbound => ?_, (program_start tokens).1, (program_start tokens).2,
    fun e rest he => ?_, fun h => ?_⟩
  -- What is left of the tokens is what a cursor has in front of it as a list.
  · have hleft : endIndex tokens - c.index = c.left := by
      have hsum := Parser.Cursor.index_add_left htokens hle
      omega
    rw [hleft]
    exact ⟨Parser.Cursor.current_eq_tokenAt htokens, expression_ends c, statement_ends c,
      declaration_ends c⟩
  · have hleft : (Parser.Cursor.start tokens).left = endIndex tokens := length_start_rest tokens
    rw [← hleft]
    exact program_ends _
  · exact ⟨(expression_built bound).any, (statement_built bound).1, (statement_built bound).2,
      program_built bound⟩
  · have hsum := Parser.Cursor.index_add_left htokens hle
    rw [← Parser.Cursor.current_eq_tokenAt htokens] at hkind
    exact declaration_advances hkind (by omega)
  · rw [parse_eq, parse_eq, State.start_append_eof tokens he rest]
  · rw [parse_eq, parse_eq, State.start_append_endOfInput h]

/-- A number without a value, then a brace that closes nothing, then the end: the number is given up
together with the brace, and the plus sign behind the end is not read. -/
theorem parse_reads_up_to_end_of_malformed :
    (∃ o, (declaration 3 (Parser.Cursor.start
        [⟨.number, "1", none, 1⟩, ⟨.rightBrace, "\x7d", none, 1⟩])).result = .ok o ∧
      0 < (declaration 3 (Parser.Cursor.start
        [⟨.number, "1", none, 1⟩, ⟨.rightBrace, "\x7d", none, 1⟩])).state.index) ∧
    parse ([⟨.number, "1", none, 1⟩, ⟨.rightBrace, "\x7d", none, 1⟩] ++
        .endOfInput 1 :: [⟨.plus, "+", none, 1⟩]) =
      parse ([⟨.number, "1", none, 1⟩, ⟨.rightBrace, "\x7d", none, 1⟩] ++ [.endOfInput 1]) ∧
    parse [⟨.number, "1", none, 1⟩, ⟨.rightBrace, "\x7d", none, 1⟩] =
      parse ([⟨.number, "1", none, 1⟩, ⟨.rightBrace, "\x7d", none, 1⟩] ++ [.endOfInput 0]) := by
  obtain ⟨-, -, -, -, hadvances, -, -, hbehind, hmissing⟩ :=
    parse_reads_up_to_end [⟨.number, "1", none, 1⟩, ⟨.rightBrace, "\x7d", none, 1⟩]
  exact ⟨hadvances (Parser.Cursor.start _) 3 rfl (Nat.zero_le _) (by decide) (by decide),
    hbehind _ _ rfl, hmissing (by decide)⟩

end Treewalk
