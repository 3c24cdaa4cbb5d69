import Treewalk.Machine.Unit
import Treewalk.Proofs.Parsing.Attempts

/-!
# Recovery

The accounts of the parsers for statements and declarations, and what they say about a whole
program: every attempt at a declaration is settled once, by a statement in the list that is being
built or by an error and recovery; no such error is lost or reported twice; and they are found
further and further on, up to the end of the input.
-/

namespace Treewalk.Parser

/-! ## Statements -/

section
variable {E : ListParser Expr}

/-- An expression that is given up is left to the declaration around it to abandon. -/
theorem Quiet.expression (bound : Nat) : (expression bound).Quiet :=
  fun s => (expression_built bound).abandoned_eq_nil (k := .semicolon) (by decide) s

theorem expressionStatement_quiet (hE : E.Quiet) : (expressionStatement E).Quiet :=
  hE.bind fun _ => (Quiet.expect _ _).bind fun _ => .pure _

theorem printStatement_quiet (hE : E.Quiet) : (printStatement E).Quiet :=
  hE.bind fun _ => (Quiet.expect _ _).bind fun _ => .pure _

theorem varDeclaration_quiet (hE : E.Quiet) : (varDeclaration E).Quiet := by
  refine (Quiet.expect _ _).bind fun name => (Quiet.accept _).bind fun o => ?_
  cases o with
  | none => exact (Quiet.pure none).bind fun _ => (Quiet.expect _ _).bind fun _ => .pure _
  | some equals => exact hE.map.bind fun _ => (Quiet.expect _ _).bind fun _ => .pure _

theorem clause_quiet (hE : E.Quiet) (stop : TokenKind) : (clause stop E).Quiet := by
  refine Quiet.bind (p := check stop) (fun _ => rfl) fun found => ?_
  cases found with
  | true => exact .pure none
  | false => exact hE.map

/-- The first clause of a for statement may be a declaration, but is not recovered from on its own.
-/
theorem initializer_quiet (hE : E.Quiet) : (initializer E).Quiet := by
  refine (Quiet.accept _).bind fun o => ?_
  cases o with
  | none => exact (expressionStatement_quiet hE).map
  | some t =>
    dsimp only
    split
    · exact .pure none
    · exact (varDeclaration_quiet hE).map

/-- A return outside of functions is reported without giving anything up. -/
theorem returnStatement_quiet (hE : E.Quiet) (keyword : Token) :
    (returnStatement E keyword).Quiet := by
  have hend : Quiet (do
      let value ← clause .semicolon E
      let _ ← expect .semicolon "Expect ';' after return value."
      pure (Stmt.ret keyword value)) :=
    (clause_quiet hE _).bind fun _ => (Quiet.expect _ _).bind fun _ => .pure _
  refine Quiet.bind (p := inFunction) (fun _ => rfl) fun within => ?_
  cases within with
  | true => exact hend
  | false => exact Quiet.bind (fun _ => rfl) fun _ => hend

end

/-- Parameters are reported, but none is given up on its own. -/
theorem parameters_quiet (bound : Nat) : (items bound parameter).Quiet := by
  have hbuilt : Built (· ≠ .semicolon) (items bound parameter : ListParser (List Token)) :=
    .items (parameter_built (by decide)) (by decide) bound
  exact fun s => hbuilt.abandoned_eq_nil (k := .semicolon) (by simp) s

/-- A token that is asked for is missing at the end of the input. -/
theorem expect_nil {s : State} (hs : s.rest = []) (kind : TokenKind) (message : String) :
    (expect kind message s).result = .error ⟨s.current, message⟩ := by
  change ((accept [kind] >>= _) s).result = _
  rw [bind_silent (accept_nil hs _)]
  rfl

/-- Whether a list of declarations in braces stops here. -/
def listStops (s : State) : Bool :=
  s.rest.isEmpty || s.rest.head?.any fun t => t.kind = .rightBrace

/-- A block makes an attempt wherever it has neither come to its brace nor to the end of the input.
-/
theorem declarations_next_rounds (D : ListParser (Option Stmt)) :
    Trial.Repeats D listStops (declarations.next D) := by
  -- Both tests of the parser are one test of the state.
  have hnext : ∀ s, declarations.next D s =
      (if listStops s then (pure none : ListParser _) else some <$> D) s := by
    intro s
    change (atEnd >>= _) s = _
    rw [atEnd_bind, check_bind]
    rfl
  refine ⟨fun {s} h => ?_, fun {s} h => ?_, fun {s} hs => by simp [listStops, hs]⟩
  · rw [hnext, if_pos h]
    rfl
  · rw [hnext, if_neg h]

/-- A program makes an attempt wherever tokens are left. -/
theorem program_next_rounds (bound : Nat) :
    Trial.Repeats (declaration bound) (·.rest.isEmpty) (program.next bound) where
  stop h := program_next_nil (List.isEmpty_iff.1 h) bound
  go h := program_next_cons (fun hs => h (by simp [hs])) bound
  stops_nil hs := by simp [hs]

namespace StrictAccount

variable {E : ListParser Expr} {S : ListParser Stmt} {D : ListParser (Option Stmt)}

/-- A block gives up where its closing brace is missing. The list in it never gives up, also if
attempts in it are given up at the end of the input. -/
def block (t : Trial D) (bound : Nat) : StrictAccount (block bound D) :=
  .close ((t.many (declarations_next_rounds D) bound).bind fun _ => (pure _).toAccount)
    (fun body => (expect _ _).bind fun _ => pure body)
    fun _ _ hs => ⟨_, by rw [bind_error (expect_nil hs _ _)]⟩

/-- The body is what makes attempts; an error in the parameters gives up the function itself. -/
def funDeclaration (t : Trial D) (bound : Nat) : StrictAccount (funDeclaration bound D) :=
  (expect _ _).bind fun _ => (expect _ _).bind fun _ =>
    (quiet (.items (parameter_built trivial) trivial bound) (parameters_quiet bound)).bind fun _ =>
    (expect _ _).bind fun _ => (expect _ _).bind fun _ =>
    (block t bound).withinFunction.bind fun _ => pure _

/-- The branches may be blocks, with attempts inside. -/
def ifStatement (hbuilt : Built (fun _ => True) E) (hE : E.Quiet) (x : StrictAccount S) :
    StrictAccount (ifStatement E S) :=
  (expect _ _).bind fun _ => (quiet hbuilt hE).bind fun _ => (expect _ _).bind fun _ =>
    x.bind fun _ => (accept _).bind <|
      ofOption (pure _) fun _ => (x.map some).bind fun _ => pure _

def whileStatement (hbuilt : Built (fun _ => True) E) (hE : E.Quiet) (x : StrictAccount S) :
    StrictAccount (whileStatement E S) :=
  (expect _ _).bind fun _ => (quiet hbuilt hE).bind fun _ => (expect _ _).bind fun _ =>
    x.bind fun _ => pure _

def forStatement (hbuilt : Built (fun _ => True) E) (hE : E.Quiet) (x : StrictAccount S) :
    StrictAccount (forStatement E S) :=
  (expect _ _).bind fun _ => (quiet (initializer_built hbuilt) (initializer_quiet hE)).bind fun _ =>
    (quiet (clause_built hbuilt _) (clause_quiet hE _)).bind fun _ => (expect _ _).bind fun _ =>
    (quiet (clause_built hbuilt _) (clause_quiet hE _)).bind fun _ => (expect _ _).bind fun _ =>
    x.bind fun _ => pure _

/-- One step of the recursion for statements: only those with statements or blocks inside make
attempts. -/
def statementOf (bound : Nat) (x : StrictAccount S) (t : Trial D) :
    StrictAccount (statementOf bound S D) :=
  have hbuilt := (expression_built bound).any
  have hE := Quiet.expression bound
  .ofEq (statementOf_eq bound S D).symm <| (accept statementWords).bind <|
    ofOption (quiet (expressionStatement_closing hbuilt).built (expressionStatement_quiet hE))
      fun word =>
        ite _ (ifStatement hbuilt hE x) <| ite _ (forStatement hbuilt hE x) <|
        ite _ (whileStatement hbuilt hE x) <|
        ite _ (quiet (printStatement_closing hbuilt).built (printStatement_quiet hE)) <|
        ite _ (quiet (returnStatement_closing hbuilt word).built (returnStatement_quiet hE word)) <|
        (block t bound).map Stmt.block

def declared (bound : Nat) (x : StrictAccount S) (t : Trial D) :
    StrictAccount (declared bound S D) :=
  (accept _).bind <| ofOption (statementOf bound x t) fun _ =>
    ite _ (funDeclaration t bound)
      (quiet (varDeclaration_closing (expression_built bound).any).built
        (varDeclaration_quiet (.expression bound)))

end StrictAccount

/-- The accounts of the parsers for statements and declarations. -/
def accounts : (bound : Nat) → StrictAccount (statement bound) × Trial (declaration bound)
  | 0 =>
    have hquiet : Quiet (unexpected "Expect expression." : ListParser Stmt) := fun _ => rfl
    (.quiet (.unexpected _) hquiet,
      { body := unexpected "Expect expression."
        eq_recovering := rfl
        eq_declaration := ⟨0, rfl⟩
        built := .unexpected _
        account := .quiet (.unexpected _) hquiet })
  | bound + 1 =>
    let inner := accounts bound
    (.statementOf (bound + 1) inner.1 inner.2,
      { body := declared (bound + 1) (statement bound) (declaration bound)
        eq_recovering := declarationOf_eq _ _ _
        eq_declaration := ⟨bound + 1, rfl⟩
        built := declared_built _ (statement_closing bound).1 (declaration_ending bound).built
        account := .declared (bound + 1) inner.1 inner.2 })

/-! ## Lists -/

/-- A block makes the attempts of its list and no others. -/
theorem StrictAccount.block_attempts {D : ListParser (Option Stmt)} (t : Trial D) (bound : Nat)
    (s : State) :
    (StrictAccount.block t bound).attempts s =
      (t.rounds listStops bound s).flatMap Attempt.ended := by
  refine (Account.attempts_bind_nil fun body s => ?_).trans ?_
  · exact Account.attempts_bind_nil fun _ _ => rfl
  · exact Account.attempts_bind_nil fun _ _ => rfl

/-- The list of a block is made of the statements of its attempts. -/
theorem declarations_result {D : ListParser (Option Stmt)} (t : Trial D) (bound : Nat) (s : State) :
    (declarations bound D s).result =
      .ok ((t.rounds listStops bound s).filterMap Attempt.statement?) := by
  have hmany := (t.many_eq (declarations_next_rounds D) bound s).1
  change ((_ <$> many (declarations.next D) bound) s).result = _
  rw [map_ok _ hmany, List.filterMap_map]
  rfl

/-! ## Programs -/

/-- The attempts at the declarations of a program, in their order. -/
def topAttempts (tokens : List Token) : List Attempt :=
  (accounts (endIndex tokens)).2.rounds (·.rest.isEmpty) (endIndex tokens) (.start tokens)

/-- All attempts at declarations in a program, also inside of others, in the order of their ends. -/
def attempts (tokens : List Token) : List Attempt :=
  (topAttempts tokens).flatMap Attempt.ended

/-- The index of the token in front of which an attempt ended, before recovery. -/
def Attempt.index (tokens : List Token) (a : Attempt) : Nat :=
  endIndex tokens - a.left

/-- The statements of a program are those of its attempts, in order and without gaps for those that
were given up. -/
theorem program_result (tokens : List Token) :
    (program (endIndex tokens) (State.start tokens)).result =
      .ok ((topAttempts tokens).filterMap Attempt.statement?) := by
  have hmany := ((accounts (endIndex tokens)).2.many_eq (program_next_rounds _) (endIndex tokens)
    (.start tokens)).1
  change ((_ <$> many (program.next _) _) (State.start tokens)).result = _
  rw [map_ok _ hmany, List.filterMap_map]
  rfl

theorem parse_statements_eq (tokens : List Token) :
    (parse tokens).statements = (topAttempts tokens).filterMap Attempt.statement? := by
  rw [parse_eq, length_start_rest, Reply.program, program_result]
  rfl

/-- The attempts of a program are its course from the first token on. -/
theorem attempts_course (tokens : List Token) :
    ∃ s, Course (attempts tokens) (.start tokens) s (parse tokens).abandoned := by
  obtain ⟨hresult, hcourse⟩ := (accounts (endIndex tokens)).2.many_eq (program_next_rounds _)
    (endIndex tokens) (.start tokens)
  -- What is abandoned is noted by the rounds; putting the statements together adds nothing.
  have habandoned : (parse tokens).abandoned =
      (many (program.next (endIndex tokens)) (endIndex tokens)
        (State.start tokens)).notes.abandoned := by
    rw [parse_eq, length_start_rest]
    change ((_ <$> many (program.next _) _) (State.start tokens)).notes.abandoned = _
    rw [map_ok _ hresult]
  rw [habandoned]
  exact ⟨_, hcourse⟩

section
variable {tokens : List Token} {a : Attempt}

/-- Every attempt of a program was made by the parser for declarations. -/
theorem Attempt.genuine_of_mem (ha : a ∈ attempts tokens) : a.Genuine := by
  obtain ⟨_, hcourse⟩ := attempts_course tokens
  exact (hcourse.genuine a ha).2

theorem Attempt.exists_start_at (ha : a ∈ attempts tokens) :
    ∃ i, i < endIndex tokens ∧ a.start.At tokens i := by
  obtain ⟨_, hcourse⟩ := attempts_course tokens
  obtain ⟨hstart, hgenuine⟩ := hcourse.genuine a ha
  obtain ⟨i, -, hi⟩ := hstart.exists_at (.start tokens)
  have hlength := hi.length_eq
  have hpos := List.length_pos_iff.2 hgenuine.start_ne_nil
  exact ⟨i, by omega, hi⟩

/-- An attempt ends in front of the token with its index. -/
theorem Attempt.end_at (ha : a ∈ attempts tokens) : a.reply.state.At tokens (a.index tokens) := by
  obtain ⟨i, -, hi⟩ := exists_start_at ha
  obtain ⟨j, -, hj⟩ := (genuine_of_mem ha).passes.exists_at hi
  -- The number of tokens left says which token it is.
  have hindex : a.index tokens = j := by
    have hlength := hj.length_eq
    rw [index, left]
    omega
  rwa [hindex]

/-- Fewer tokens left is a greater index. -/
theorem Attempt.left_add_index (ha : a ∈ attempts tokens) :
    a.left + a.index tokens = endIndex tokens := by
  have hlength := (end_at ha).length_eq
  rw [left]
  omega

end

end Treewalk.Parser

namespace Treewalk

/-- Noting entries one by one appends them to the log in order. -/
theorem Machine.log_foldl_note {α : Type} (entry : α → LogEntry) (as : List α) (m : Machine) :
    (as.foldl (fun m a => m.note (entry a)) m).log.toList = m.log.toList ++ as.map entry := by
  induction as generalizing m with
  | nil => simp
  | cons a as ih => rw [List.foldl_cons, ih]; simp [note]

open Treewalk.Parser

/-- No declaration is lost, and no error that ends one is lost or reported twice.

* Every attempt at a declaration, also inside of others, is a call of the parser for declarations in
  front of a token. It is settled by its statement, with what was noted on the way, or by one more
  error and recovery. The errors of this kind that were noted on the way are those of the attempts
  inside.
* The statements of a program are those of the attempts at top level, and the statements of a block
  are those of the attempts that the block makes for its list.
* The errors of this kind in the result are those of all attempts, in the order of their ends. For
  each of them, and for nothing else, a line is logged, with the line and the wording of the error.
* They are found at the tokens where the attempts ended, each further on than the one before. But if
  one is found at the end of the input, then all attempts that end later are still open there and
  are given up there too, and so are all attempts that are still open. -/
theorem attempts_settled_once (tokens : List Token) :
    (∀ a ∈ attempts tokens,
      (∃ bound, declaration bound a.start = a.settled) ∧
      (∃ i, i < endIndex tokens ∧ a.start.At tokens i) ∧
      ((∃ statement, a.statement? = some statement ∧ a.error? = none ∧
          a.settled = ⟨.ok (some statement), a.reply.state, a.reply.notes⟩) ∨
        ∃ e, a.statement? = none ∧ a.error? = some e ∧
          a.settled = ⟨.ok none, { a.reply.state with rest := synchronize a.reply.state.rest },
            a.reply.notes ++ ⟨[.unexpectedToken e], [e]⟩⟩) ∧
      a.reply.notes.errors.filterMap SyntaxError.unexpected? = a.inside.filterMap Attempt.error? ∧
      ∀ b ∈ a.inside, b ∈ attempts tokens) ∧
    (attempts tokens = (topAttempts tokens).flatMap Attempt.ended ∧
      (parse tokens).statements = (topAttempts tokens).filterMap Attempt.statement?) ∧
    (∀ depth bound s,
      (StrictAccount.block (accounts depth).2 bound).attempts s =
        ((accounts depth).2.rounds listStops bound s).flatMap Attempt.ended ∧
      (declarations bound (declaration depth) s).result =
        .ok (((accounts depth).2.rounds listStops bound s).filterMap Attempt.statement?)) ∧
    (parse tokens).errors.filterMap SyntaxError.unexpected? =
      (attempts tokens).filterMap Attempt.error? ∧
    (∀ m : Machine, (m.parse tokens).2.log.toList = m.log.toList ++
      ((parse tokens).errors.filterMap SyntaxError.unexpected?).map LogEntry.abandoned) ∧
    (∀ e u, SyntaxError.unexpected? e = some u → (LogEntry.abandoned u).level = .debug ∧
      (LogEntry.abandoned u).message = s!"line {e.token.line}: {e.message}, synchronizing") ∧
    (∀ a ∈ attempts tokens, ∀ e ∈ a.error?, a.index tokens ≤ endIndex tokens ∧
      e.found = tokenAt tokens (a.index tokens)) ∧
    (attempts tokens).Pairwise (fun a b => a.error?.isSome → b.error?.isSome →
      a.index tokens < b.index tokens ∨
        a.index tokens = endIndex tokens ∧ b.index tokens = endIndex tokens) ∧
    (attempts tokens).Pairwise (fun a b => a.error?.isSome → a.index tokens = endIndex tokens →
      a ∈ b.inside) ∧
    (∀ b ∈ attempts tokens, ∀ a ∈ b.inside, a.error?.isSome →
      a.index tokens = endIndex tokens →
      b.error?.isSome ∧ b.index tokens = endIndex tokens) := by
  obtain ⟨_, hcourse⟩ := attempts_course tokens
  -- An attempt that ends with no tokens left ends at the end of the input, and no other one does.
  have hend : ∀ a ∈ attempts tokens, a.index tokens = endIndex tokens ↔ a.left = 0 := by
    intro a ha
    have hsum := a.left_add_index ha
    omega
  refine ⟨fun a ha => ?_, ⟨rfl, parse_statements_eq tokens⟩, fun depth bound s => ?_, ?_,
    fun m => ?_, fun e u hu => ?_, fun a ha e he => ?_, ?_, ?_, fun b hb a ha herror hindex => ?_⟩
  · have hgenuine := a.genuine_of_mem ha
    exact ⟨hgenuine.declaration_eq, a.exists_start_at ha, a.settled_cases,
      hgenuine.faithful.trans hgenuine.abandoned_eq, hcourse.inside a ha⟩
  · exact ⟨StrictAccount.block_attempts _ bound s, declarations_result _ bound s⟩
  · rw [← parse_abandoned, hcourse.abandoned_eq]
  · rw [← parse_abandoned]
    exact Machine.log_foldl_note LogEntry.abandoned _ m
  · cases e <;> cases hu
    exact ⟨rfl, rfl⟩
  · have hat := a.end_at ha
    exact ⟨hat.le, ((a.genuine_of_mem ha).found_eq e he).trans hat.current_eq⟩
  · -- Fewer tokens left is a greater index.
    refine hcourse.ordered.imp_of_mem fun {a b} ha hb horder herror herror' => ?_
    by_cases hleft : a.left = 0
    · exact .inr ⟨(hend a ha).2 hleft, (hend b hb).2 (horder.atEnd ⟨herror, hleft⟩).1.2⟩
    · have hlt := horder.left_lt herror hleft herror'
      have hsum := a.left_add_index ha
      have hsum' := b.left_add_index hb
      exact .inl (by omega)
  · refine hcourse.ordered.imp_of_mem fun {a b} ha _ horder herror hindex => ?_
    exact (horder.atEnd ⟨herror, (hend a ha).1 hindex⟩).2
  · have hleft := (hend a (hcourse.inside b hb a ha)).1 hindex
    obtain ⟨herror', hleft'⟩ := (b.genuine_of_mem hb).atEnd a ha ⟨herror, hleft⟩
    exact ⟨herror', (hend b hb).2 hleft'⟩

/-- Two blocks are open at the end of the input. Both are given up there, the inner one first. -/
theorem unclosed_blocks_settled_at_end : ∃ a b : Attempt,
    attempts [⟨.leftBrace, "\x7b", none, 1⟩, ⟨.leftBrace, "\x7b", none, 1⟩] = [a, b] ∧
    a.error?.isSome ∧
    a.index [⟨.leftBrace, "\x7b", none, 1⟩, ⟨.leftBrace, "\x7b", none, 1⟩] = 2 ∧
    a ∈ b.inside ∧ b.error?.isSome ∧
    b.index [⟨.leftBrace, "\x7b", none, 1⟩, ⟨.leftBrace, "\x7b", none, 1⟩] = 2 := by
  -- The errors and places are computed; that one attempt is inside the other is what follows.
  have hmade : (attempts [⟨.leftBrace, "\x7b", none, 1⟩, ⟨.leftBrace, "\x7b", none, 1⟩]).map
      (fun a => (a.error?.isSome, a.left)) = [(true, 0), (true, 0)] := by
    decide +kernel
  obtain ⟨a, rest, hattempts, ha, hrest⟩ := List.map_eq_cons_iff.1 hmade
  obtain ⟨b, rest, rfl, -, hrest⟩ := List.map_eq_cons_iff.1 hrest
  obtain rfl := List.map_eq_nil_iff.1 hrest
  obtain ⟨herror, hleft⟩ := Prod.mk.inj ha
  have hindex : a.index [⟨.leftBrace, "\x7b", none, 1⟩, ⟨.leftBrace, "\x7b", none, 1⟩] = 2 := by
    rw [Attempt.index, hleft]
    rfl
  obtain ⟨-, -, -, -, -, -, -, -, hopen, hends⟩ :=
    attempts_settled_once [⟨.leftBrace, "\x7b", none, 1⟩, ⟨.leftBrace, "\x7b", none, 1⟩]
  rw [hattempts] at hopen hends
  have hinside : a ∈ b.inside :=
    (List.pairwise_cons.1 hopen).1 b (List.mem_singleton_self b) herror hindex
  obtain ⟨herror', hindex'⟩ := hends b (by simp) a hinside herror hindex
  exact ⟨a, b, hattempts, herror, hindex, hinside, herror', hindex'⟩

end Treewalk
