import Treewalk.Proofs.Parsing.Cursors
import Treewalk.Proofs.Parsing.Completeness

/-!
# The parser and the grammar

The tokens of a program are parsed without an error exactly if the grammar derives statements from
them, and then these are the statements that the parser returns.
-/

namespace Treewalk

namespace Parser

/-! ## Whole programs -/

/-- The rounds of a program stop at the end of the input only. -/
theorem next_none {bound : Nat} {s t : State} (h : (program.next bound).Yields s none t) :
    s = t ∧ t.rest = [] := by
  simp only [program.next, yields_bind, yields_ite, yields_pure, yields_map, yields_atEnd] at h
  obtain ⟨_, _, ⟨hend, rfl⟩, ⟨hdone, -, rfl⟩ | ⟨-, _, -, ⟨⟩⟩⟩ := h
  exact ⟨rfl, by simpa [hdone] using hend⟩

/-- Every other round reads a declaration. -/
theorem next_some {bound : Nat} {s t : State} {o : Option Stmt}
    (h : (program.next bound).Yields s (some o) t) : (declaration bound).Yields s o t := by
  simp only [program.next, yields_bind, yields_ite, yields_pure, yields_map, yields_atEnd] at h
  obtain ⟨_, _, ⟨-, rfl⟩, ⟨-, ⟨⟩, -⟩ | ⟨-, _, ho, ⟨⟩⟩⟩ := h
  exact ho

/-- A list whose rounds each read a token ends where there is nothing more for it, if its bound is
at least the number of tokens. -/
theorem many_ends {α : Type} {p : ListParser (Option α)}
    (hp : ∀ {s a t}, p.Yields s (some a) t → t.rest.length < s.rest.length) {bound : Nat}
    {s t : State} {as : List α} (h : (many p bound).Yields s as t)
    (hbound : s.rest.length ≤ bound) : t.rest = [] ∨ ∃ u, p.Yields u none t := by
  induction bound generalizing s as with
  | zero =>
    obtain ⟨-, rfl⟩ := yields_many_zero.1 h
    exact .inl (List.length_eq_zero_iff.1 (Nat.le_zero.1 hbound))
  | succ bound ih =>
    obtain ⟨hend, -⟩ | ⟨a, rest, u, ha, hrest, -⟩ := yields_many_succ.1 h
    · exact .inr ⟨s, hend⟩
    · have := hp ha
      exact ih hrest (by omega)

/-- A program that was read cleanly is spelled by declarations up to the end of the input. -/
theorem program_spells {s t : State} {statements : List Stmt}
    (h : (program s.rest.length).Yields s statements t) :
    Grammar.Declarations s.inFunction s.rest statements := by
  have hD := (statement_spells s.rest.length).2
  simp only [program, yields_bind, yields_pure] at h
  obtain ⟨found, last, hfound, rfl, rfl⟩ := h
  obtain ⟨ts, hs, hts⟩ := many_spells_declarations hD (fun h => (next_none h).1) next_some hfound
  -- Every round reads a declaration, and no declaration is without tokens.
  have hread : ∀ {s' o t'}, (program.next s.rest.length).Yields s' (some o) t' →
      t'.rest.length < s'.rest.length := by
    intro s' o t' h
    obtain ⟨us, a, rfl, -, hus⟩ := hD _ _ _ (next_some h)
    have := (declaration_starts hus).length_pos
    simp only [State.unread_rest, List.length_append]
    omega
  -- So the rounds end because there is nothing left, and not because their bound is reached.
  have hend : last.rest = [] := by
    obtain hend | ⟨u, hu⟩ := many_ends hread hfound (Nat.le_refl _)
    · exact hend
    · exact (next_none hu).2
  have hrest : s.rest = ts := by
    have := congrArg State.rest hs
    rwa [State.unread_rest, hend, List.append_nil] at this
  rwa [hrest]

/-- Declarations up to the end of the input are read cleanly. -/
theorem program_reads {s : State} {statements : List Stmt}
    (h : Grammar.Declarations s.inFunction s.rest statements) :
    (program s.rest.length).Yields s statements { s with rest := [] } := by
  have hD := (statement_reads s.rest.length).2
  have hnext : ∀ {s' a t}, s'.Avoids [.rightBrace] → s'.rest ≠ [] →
      (declaration s.rest.length).Yields s' (some a) t →
      (program.next s.rest.length).Yields s' (some (some a)) t := by
    intro s' a t _ hrest ha
    simp only [program.next, yields_bind, yields_ite, yields_atEnd, yields_map]
    exact ⟨false, s', ⟨by simpa using hrest, rfl⟩, .inr ⟨by simp, some a, ha, rfl⟩⟩
  -- At the end of the input the rounds stop.
  have hend : (program.next s.rest.length).Yields { s with rest := [] } none
      { s with rest := [] } := by
    simp only [program.next, yields_bind, yields_ite, yields_atEnd]
    exact ⟨true, _, ⟨rfl, rfl⟩, .inl ⟨rfl, yields_pure.2 ⟨rfl, rfl⟩⟩⟩
  obtain ⟨hrounds, hcount⟩ := declarations_rounds hD hnext hend (by simp [State.Avoids]) h rfl
    (Nat.le_refl _)
  have hstate : State.unread { s with rest := [] } s.rest = s := by simp [State.unread]
  rw [hstate] at hrounds
  simp only [program, yields_bind]
  exact ⟨statements.map some, _, hrounds.yields_many (by rwa [List.length_map]),
    yields_pure.2 ⟨by simp, rfl⟩⟩

end Parser

/-- A list of tokens is parsed without an error exactly if it is read cleanly. -/
theorem parse_yields_iff (tokens : List Token) (statements : List Stmt) :
    (parse tokens).statements = statements ∧ (parse tokens).errors = [] ↔
      ∃ t, (Parser.program (Parser.State.start tokens).rest.length).Yields
        (Parser.State.start tokens) statements t := by
  obtain ⟨found, hfound⟩ := Parser.total_program (Parser.State.start tokens).rest.length
    (Parser.State.start tokens)
  simp [parse_eq, Parser.Reply.program, Parser.Yields, hfound, Except.toOption]

/-- A list of tokens is parsed without an error, to given statements, exactly if its tokens up to
the first end of input spell a program of these statements. -/
theorem parse_iff_program (tokens : List Token) (statements : List Stmt) :
    (parse tokens).statements = statements ∧ (parse tokens).errors = [] ↔
      Grammar.Program (tokens.takeWhile fun t => t.kind ≠ .eof) statements := by
  rw [parse_yields_iff]
  exact ⟨fun ⟨_, h⟩ => Parser.program_spells h, fun h => ⟨_, Parser.program_reads h⟩⟩

end Treewalk
