import Treewalk.Proofs.Parsing.Cursors

/-!
# Boundaries between statements

A program is parsed declaration by declaration. What the parser does with a declaration does not
depend on what stands behind it, once the declaration has ended. So a list of tokens that is cut at
the end of a declaration is parsed piece by piece, and an error in one piece is not seen in another.
-/

namespace Treewalk

/-- One program behind another. -/
instance : Append Program where
  append p q :=
    ⟨p.statements ++ q.statements, p.errors ++ q.errors, p.abandoned ++ q.abandoned⟩

namespace Program

/-- The program without statements. -/
def empty : Program := ⟨[], [], []⟩

@[simp] theorem statements_append (p q : Program) :
    (p ++ q).statements = p.statements ++ q.statements := rfl

@[simp] theorem errors_append (p q : Program) : (p ++ q).errors = p.errors ++ q.errors := rfl

@[simp] theorem abandoned_append (p q : Program) :
    (p ++ q).abandoned = p.abandoned ++ q.abandoned := rfl

@[ext] theorem ext {p q : Program} (hstatements : p.statements = q.statements)
    (herrors : p.errors = q.errors) (habandoned : p.abandoned = q.abandoned) : p = q := by
  cases p
  cases q
  simp_all

theorem append_assoc (p q r : Program) : p ++ q ++ r = p ++ (q ++ r) := by
  ext1 <;> simp

@[simp] theorem empty_append (p : Program) : empty ++ p = p := rfl

@[simp] theorem append_empty (p : Program) : p ++ empty = p := by
  ext1 <;> simp [empty]

end Program

namespace Parser

/-! ## One declaration after the other -/

/-- What a declaration adds to a program. -/
def Reply.unit (r : ListReply (Option Stmt)) : Program :=
  ⟨(r.result.toOption.getD none).toList, r.notes.errors, r.notes.abandoned⟩

/-- The program in front of which a state is. -/
def State.program (s : State) : Program :=
  (Parser.program s.rest.length s).program

/-- What the parser makes of the tokens in front of which a state is, with any bounds that are not
passed. -/
theorem State.program_eq {s : State} {b c : Nat} (hb : s.rest.length ≤ b)
    (hc : s.rest.length ≤ c) {found : List (Option Stmt)}
    (h : (many (program.next b) c s).result = .ok found) :
    s.program = ⟨found.filterMap id, (many (program.next b) c s).notes.errors,
      (many (program.next b) c s).notes.abandoned⟩ := by
  -- The program is defined with the tightest bounds; any wider ones agree with them.
  have hmany : many (program.next s.rest.length) s.rest.length s = many (program.next b) c s :=
    Agree.eq (.many (program_next_repeats _) (program_next_agree (Nat.le_refl _) hb)
      (Nat.le_refl _) hc) (Nat.le_refl _)
  have hprogram : Parser.program s.rest.length s = ⟨.ok (found.filterMap id), _, _⟩ :=
    map_ok (List.filterMap id) (hmany ▸ h)
  simp only [State.program, Reply.program, hprogram, hmany, Except.toOption, Option.getD_some]

/-- In front of no tokens there is no program. -/
theorem State.program_nil {s : State} (hs : s.rest = []) : s.program = .empty := by
  have hmany : many (program.next 0) 0 s = ⟨.ok [], s, .none⟩ := rfl
  have hlength : s.rest.length ≤ 0 := by simp [hs]
  rw [State.program_eq hlength hlength (congrArg Reply.result hmany)]
  rfl

/-- The next declaration, and the program behind it. -/
theorem State.program_cons {s : State} (hs : s.rest ≠ []) {bound : Nat}
    (hbound : s.rest.length ≤ bound) :
    s.program = (declaration bound s).unit ++ (declaration bound s).state.program := by
  obtain ⟨o, ho⟩ := total_declaration bound s
  have hle := declaration_length_lt bound hs
  obtain ⟨found, hfound⟩ := total_many (total_program_next bound) bound (declaration bound s).state
  have hnext : program.next bound s =
      ⟨.ok (some o), (declaration bound s).state, (declaration bound s).notes⟩ := by
    rw [program_next_cons hs, map_ok _ ho]
  have hmany := many_cons hnext hfound
  rw [State.program_eq hbound (Nat.le_succ_of_le hbound) (congrArg Reply.result hmany), hmany,
    State.program_eq (by omega) (by omega) hfound]
  cases o <;> simp [Reply.unit, ho, Except.toOption, Program.ext_iff]

/-! ## Behind the end of a declaration -/

/-- A state with nothing left makes way for what stands behind. -/
theorem State.before_of_nil {s u : State} (hs : s.rest = [])
    (hfn : s.inFunction = u.inFunction) : s.before u = u := by
  simp [State.before, hs, hfn]

/-- A program in which no declaration was abandoned is the same whatever stands behind it, as long
as that does not start with `else`. -/
theorem State.program_before {s u : State} (habandoned : s.program.abandoned = [])
    (hu : u.Avoids [.elseWord]) (hfn : s.inFunction = u.inFunction) :
    (s.before u).program = s.program ++ u.program := by
  -- Every declaration takes a token, so that the induction is on their number.
  induction hn : s.rest.length using Nat.strongRecOn generalizing s with
  | ind n ih =>
    by_cases hs : s.rest = []
    · rw [State.before_of_nil hs hfn, State.program_nil hs, Program.empty_append]
    · obtain ⟨bound, hbound, hbound'⟩ : ∃ bound, s.rest.length ≤ bound ∧
          (s.before u).rest.length ≤ bound := ⟨_, by simp, Nat.le_refl _⟩
      have hs' : (s.before u).rest ≠ [] := by simp [hs]
      obtain ⟨o, ho⟩ := total_declaration bound s
      rw [State.program_cons hs hbound] at habandoned
      obtain ⟨hfirst, hrest⟩ := List.append_eq_nil_iff.1 habandoned
      have hending := declaration_ending bound
      have hmore := hending.apply_before ho hfirst hu
      have hlt := declaration_length_lt bound hs
      have hfn' := (hending.built.state_inFunction s).trans hfn
      calc (s.before u).program
          = (declaration bound s).unit ++ ((declaration bound s).state.before u).program := by
            rw [State.program_cons hs' hbound', hmore]
            rfl
        _ = (declaration bound s).unit ++ ((declaration bound s).state.program ++ u.program) := by
            rw [ih _ (hn ▸ hlt) hrest hfn' rfl]
        _ = s.program ++ u.program := by
            rw [← Program.append_assoc, ← State.program_cons hs hbound]

/-! ## Simple statements -/

/-- The kinds of the tokens that no simple statement has before its semicolon. -/
def compoundKinds : List TokenKind :=
  [.semicolon, .leftBrace, .forWord, .whileWord, .ifWord, .returnWord]

/-- The state is in front of the rest of what may be a simple statement, and of nothing else: the
only semicolon is the last token, and nothing in front of it starts a compound statement. -/
def State.InSimple (s : State) : Prop :=
  ∃ (ts : List Token) (semicolon : Token), s.rest = ts ++ [semicolon] ∧
    semicolon.kind = .semicolon ∧ ∀ t ∈ ts, t.kind ∉ compoundKinds

/-- In front of the rest of a simple statement the parser ends with it or somewhere before its
semicolon, abandons no declaration and does not look behind the semicolon. -/
structure Finishes {α : Type} (p : ListParser α) (s : State) : Prop where
  abandoned : (p s).notes.abandoned = []
  apply_before (u : State) : p (s.before u) = (p s).before u
  ends : (∃ a, (p s).result = .ok a ∧ (p s).state.rest = []) ∨
    (∃ e, (p s).result = .error e ∧ (p s).state.InSimple)

theorem State.InSimple.ne_nil {s : State} (h : s.InSimple) : s.rest ≠ [] := by
  obtain ⟨ts, semicolon, hrest, -⟩ := h
  simp [hrest]

/-- The next token is the semicolon, and then it is the last one, or a token that a simple statement
may have. -/
theorem State.InSimple.head {s : State} (h : s.InSimple) {t : Token} {rest : List Token}
    (ht : s.rest = t :: rest) : t.kind = .semicolon ∧ rest = [] ∨ t.kind ∉ compoundKinds := by
  obtain ⟨_ | ⟨t', ts⟩, semicolon, hrest, hkind, hts⟩ := h
  · obtain ⟨rfl, rfl⟩ := List.cons.inj (ht.symm.trans hrest)
    exact .inl ⟨hkind, rfl⟩
  · obtain ⟨rfl, rfl⟩ := List.cons.inj (ht.symm.trans hrest)
    exact .inr (hts t List.mem_cons_self)

/-- What is taken before the semicolon is not of a kind that starts a compound statement. -/
theorem State.InSimple.accept {s : State} (h : s.InSimple) {kinds : List TokenKind} {t : Token}
    (ht : (accept kinds s).result = .ok (some t)) (hkinds : .semicolon ∉ kinds) :
    t.kind ∈ kinds ∧ t.kind ∉ compoundKinds := by
  obtain ⟨hmem, hunread, -⟩ := accept_some ht
  obtain ⟨hkind, -⟩ | hkind := h.head (congrArg State.rest hunread)
  · exact absurd (hkind ▸ hmem) hkinds
  · exact ⟨hmem, hkind⟩

/-- A parser that takes no semicolon stays within the statement. -/
theorem Built.inSimple {α : Type} {K : TokenKind → Prop} {p : ListParser α} (hp : Built K p)
    (hK : ¬K .semicolon) {s : State} (h : s.InSimple) : (p s).state.InSimple := by
  obtain ⟨ts, semicolon, hrest, hkind, hts⟩ := h
  obtain ⟨us, hs, hus⟩ := hp.forward s
  rw [congrArg State.rest hs, State.unread_rest] at hrest
  -- What was taken ends before the semicolon, or else the semicolon is part of it.
  obtain ⟨vs, rfl, hvs⟩ | ⟨vs, rfl, hvs⟩ := List.append_eq_append_iff.1 hrest
  · exact ⟨vs, semicolon, hvs, hkind, fun t ht => hts t (List.mem_append_right us ht)⟩
  · cases vs with
    | nil => exact ⟨[], semicolon, hvs.symm, hkind, by simp⟩
    | cons v vs =>
      obtain ⟨rfl, -⟩ := List.cons.inj hvs
      exact absurd (hkind ▸ hus semicolon (by simp)) hK

section
variable {α β : Type} {p : ListParser α} {f : α → ListParser β} {s : State}

/-- A sequence whose first part cannot take the semicolon. -/
theorem Finishes.bind {K : TokenKind → Prop} (hp : Built K p) (hK : ¬K .semicolon)
    (hs : s.InSimple)
    (hf : ∀ a, (p s).result = .ok a → (p s).state.InSimple → Finishes (f a) (p s).state) :
    Finishes (p >>= f) s := by
  -- The semicolon is left behind the first part, which therefore does not look behind it.
  have hmid := hp.inSimple hK hs
  have hmore := fun u => hp.apply_before s u hmid.ne_nil
  have hnone := hp.abandoned_eq_nil hK s
  cases hr : (p s).result with
  | error e =>
    refine ⟨by rw [bind_error hr, hnone], fun u => ?_, .inr ⟨e, by rw [bind_error hr], ?_⟩⟩
    · rw [bind_error hr, bind_error (by rw [hmore]; exact hr), hmore]
      rfl
    · rwa [bind_error hr]
  | ok a =>
    obtain ⟨habandoned, happly, hends⟩ := hf a hr hmid
    refine ⟨by simp [bind_ok hr, hnone, habandoned], fun u => ?_, by rwa [bind_ok hr]⟩
    rw [bind_ok hr, bind_ok (by rw [hmore]; exact hr), hmore]
    simp only [Reply.before, happly]

/-- The result may be changed at the end. -/
theorem Finishes.bind_pure (h : Finishes p s) (g : α → β) :
    Finishes (p >>= fun a => pure (g a)) s := by
  obtain ⟨habandoned, happly, ⟨a, hr, hrest⟩ | ⟨e, hr, hrest⟩⟩ := h
  · refine ⟨by simp [bind_ok hr, habandoned, pure, Parser.pure, Notes.none], fun u => ?_, .inl ?_⟩
    · rw [bind_ok hr, bind_ok (by rw [happly]; exact hr), happly]
      rfl
    · exact ⟨g a, by rw [bind_ok hr]; rfl, by rwa [bind_ok hr]⟩
  · refine ⟨by rw [bind_error hr, habandoned], fun u => ?_, .inr ?_⟩
    · rw [bind_error hr, bind_error (by rw [happly]; exact hr), happly]
      rfl
    · exact ⟨e, by rw [bind_error hr], by rwa [bind_error hr]⟩

/-- With a token left, a token that is asked for is there or is missed at that token. -/
theorem expect_cons {kind : TokenKind} {message : String} {t : Token} {rest : List Token}
    (ht : s.rest = t :: rest) : expect kind message s =
      if t.kind = kind then ⟨.ok t, { s with rest }, .none⟩
      else ⟨.error ⟨t, message⟩, s, .none⟩ := by
  by_cases hkind : t.kind = kind
  · have haccept : accept [kind] s = ⟨.ok (some t), { s with rest }, .none⟩ :=
      accept_of_mem ht (by simp [hkind])
    rw [expect_of_accept (congrArg Reply.result haccept), haccept, if_pos hkind]
  · have haccept : accept [kind] s = ⟨.ok none, s, .none⟩ :=
      accept_of_not_mem ht (by simp [hkind])
    change (accept [kind] >>= _) s = _
    rw [bind_silent haccept, if_neg hkind]
    simp [unexpected, State.current, ht]

/-- The semicolon is there, and then nothing is left, or the statement is given up before it. -/
theorem Finishes.semicolon (message : String) (hs : s.InSimple) :
    Finishes (expect .semicolon message) s := by
  obtain ⟨t, rest, ht⟩ := List.exists_cons_of_ne_nil hs.ne_nil
  have hexpect : expect .semicolon message s = _ := expect_cons ht
  obtain ⟨hkind, rfl⟩ | hkind := hs.head ht
  · rw [if_pos hkind] at hexpect
    exact ⟨by rw [hexpect]; rfl, expect_before (congrArg Reply.result hexpect),
      .inl ⟨t, by rw [hexpect], by rw [hexpect]⟩⟩
  · have hkind' : t.kind ≠ .semicolon := fun h => hkind (by simp [h, compoundKinds])
    rw [if_neg hkind'] at hexpect
    have hbuilt : Built (fun _ => True) (expect .semicolon message : ListParser Token) :=
      .expect message trivial
    exact ⟨by rw [hexpect]; rfl, fun u => hbuilt.apply_before s u (by simp [hexpect, ht]),
      .inr ⟨_, by rw [hexpect], by rwa [hexpect]⟩⟩

/-- A block cannot start in a simple statement. -/
theorem Finishes.leftBrace {message : String} {f : Token → ListParser β} (hs : s.InSimple) :
    Finishes (expect .leftBrace message >>= f) s := by
  refine .bind (K := (· = .leftBrace)) (.expect message rfl) (by decide) hs fun t ht _ => ?_
  obtain ⟨hmem, hnot⟩ := hs.accept (exists_accept_of_expect ht) (by decide)
  simp_all [compoundKinds]

end

theorem expressionStatement_finishes (bound : Nat) {s : State} (hs : s.InSimple) :
    Finishes (expressionStatement (expression bound)) s :=
  .bind (expression_built bound) (by decide) hs fun _ _ hs => (Finishes.semicolon _ hs).bind_pure _

theorem printStatement_finishes (bound : Nat) {s : State} (hs : s.InSimple) :
    Finishes (printStatement (expression bound)) s :=
  .bind (expression_built bound) (by decide) hs fun _ _ hs => (Finishes.semicolon _ hs).bind_pure _

/-- The declaration of a variable is simple. -/
theorem varDeclaration_finishes (bound : Nat) {s : State} (hs : s.InSimple) :
    Finishes (varDeclaration (expression bound)) s := by
  refine .bind (K := (· ≠ .semicolon)) (.expect _ (by decide)) (by simp) hs fun name _ hs => ?_
  refine .bind (K := (· ≠ .semicolon)) (.accept (by decide)) (by simp) hs fun o _ hs => ?_
  cases o with
  | none => exact (Finishes.semicolon _ hs).bind_pure _
  | some equals =>
    exact .bind (expression_built bound).map (by decide) hs fun _ _ hs =>
      (Finishes.semicolon _ hs).bind_pure _

/-- What starts like a function is given up, because the brace of its body cannot come. -/
theorem funDeclaration_finishes (bound : Nat) (D : ListParser (Option Stmt)) {s : State}
    (hs : s.InSimple) : Finishes (funDeclaration bound D) s := by
  refine .bind (K := (· ≠ .semicolon)) (.expect _ (by decide)) (by simp) hs fun name _ hs => ?_
  refine .bind (K := (· ≠ .semicolon)) (.expect _ (by decide)) (by simp) hs fun _ _ hs => ?_
  refine .bind (K := (· ≠ .semicolon)) (.items (parameter_built (by decide)) (by decide) bound)
    (by simp) hs fun params _ hs => ?_
  refine .bind (K := (· ≠ .semicolon)) (.expect _ (by decide)) (by simp) hs fun _ _ hs => ?_
  exact .leftBrace hs

/-- Without a word that starts a compound statement, it is a print statement or an expression. -/
theorem statementOf_finishes (bound : Nat) (S : ListParser Stmt)
    (D : ListParser (Option Stmt)) {s : State}
    (hs : s.InSimple) : Finishes (statementOf bound S D) s := by
  refine .bind (K := (· ≠ .semicolon)) (.accept (by decide)) (by simp) hs fun o ho hs' => ?_
  cases o with
  | none => exact expressionStatement_finishes bound hs'
  | some t =>
    -- Of the words that start a statement only one starts a simple one.
    have hprint : t.kind = .printWord := by
      obtain ⟨hmem, hnot⟩ := hs.accept ho (by decide)
      simp_all [statementWords, compoundKinds]
    simp only [hprint]
    exact printStatement_finishes bound hs'

theorem boundary_semicolon {t : Token} (ht : t.kind = .semicolon) (us : List Token) :
    boundary t us = us := by
  cases us <;> simp [boundary, ht]

/-- Recovery inside of a simple statement stops right behind its semicolon. -/
theorem boundary_simple {t semicolon : Token} {ts : List Token} (ht : t.kind ∉ compoundKinds)
    (hts : ∀ t ∈ ts, t.kind ∉ compoundKinds) (hsemicolon : semicolon.kind = .semicolon)
    (us : List Token) : boundary t (ts ++ semicolon :: us) = us := by
  have hnot : t.kind ≠ .semicolon := fun h => ht (by simp [h, compoundKinds])
  induction ts generalizing t with
  | nil =>
    simp only [List.nil_append, boundary, hsemicolon, hnot, startsStatement]
    exact boundary_semicolon hsemicolon us
  | cons u ts ih =>
    obtain ⟨hu, hts⟩ := List.forall_mem_cons.1 hts
    -- No token in front of the semicolon starts a statement.
    have hstart : startsStatement u.kind = false := by
      simp_all [compoundKinds, startsStatement]
    simp only [List.cons_append, boundary, hnot, hstart]
    exact ih hu hts fun h => hu (by simp [h, compoundKinds])

/-- The boundary behind a simple statement is right behind its semicolon. -/
theorem State.InSimple.synchronize {s : State} (h : s.InSimple) (us : List Token) :
    synchronize (s.rest ++ us) = us := by
  obtain ⟨_ | ⟨t, ts⟩, semicolon, hrest, hkind, hts⟩ := h
  · rw [hrest]
    exact boundary_semicolon hkind us
  · obtain ⟨ht, hts⟩ := List.forall_mem_cons.1 hts
    rw [hrest, List.append_assoc]
    exact boundary_simple ht hts hkind us

/-- What may be a simple statement is read up to its end, or is passed over up to its end. -/
theorem Finishes.recovering {α : Type} {p : ListParser α} {s : State} (h : Finishes p s) :
    (recovering p s).state.rest = [] ∧
    (∀ u, recovering p (s.before u) = (recovering p s).before u) ∧
    ((∃ a, (recovering p s).result = .ok (some a) ∧ (recovering p s).notes.abandoned = []) ∨
      (recovering p s).result = .ok none ∧ ∃ e, (recovering p s).notes.abandoned = [e]) := by
  obtain ⟨habandoned, happly, ⟨a, hr, hrest⟩ | ⟨e, hr, hrest⟩⟩ := h
  · refine ⟨by rwa [recovering_ok hr], fun u => ?_, .inl ⟨a, ?_⟩⟩
    · rw [recovering_ok hr, recovering_ok (by rw [happly]; exact hr), happly]
      rfl
    · rw [recovering_ok hr]
      exact ⟨rfl, habandoned⟩
  · have hend := hrest.synchronize
    have hend' : Parser.synchronize (p s).state.rest = [] := by simpa using hend []
    refine ⟨by rwa [recovering_error hr], fun u => ?_, .inr ?_⟩
    · rw [recovering_error hr, recovering_error (by rw [happly]; exact hr), happly]
      simp only [Reply.before, State.before_rest, hend, hend']
      rfl
    · rw [recovering_error hr]
      exact ⟨rfl, e, by simp [habandoned]⟩

/-- What is tried in front of a simple statement finishes, and recovery comes on top. -/
theorem declarationOf_finishes (bound : Nat) (S : ListParser Stmt) (D : ListParser (Option Stmt))
    {s : State} (hs : s.InSimple) :
    ∃ p, Finishes p s ∧ declarationOf bound S D = Parser.recovering p := by
  refine ⟨_, .bind (K := (· ≠ .semicolon)) (.accept (by decide)) (by simp) hs fun o _ hs => ?_, rfl⟩
  cases o with
  | none => exact statementOf_finishes bound S D hs
  | some t =>
    dsimp only
    split
    · exact funDeclaration_finishes bound D hs
    · exact varDeclaration_finishes bound hs

/-- What may be a simple statement leaves one statement or one abandoned declaration, and nothing of
what stands behind it is lost. -/
theorem State.program_simple {s u : State} (hs : s.InSimple) (hfn : s.inFunction = u.inFunction) :
    (s.before u).program = s.program ++ u.program ∧
    ((∃ statement, s.program.statements = [statement] ∧ s.program.abandoned = []) ∨
      s.program.statements = [] ∧ ∃ e, s.program.abandoned = [e]) := by
  obtain ⟨bound, hbound, hbound'⟩ : ∃ bound, s.rest.length ≤ bound + 1 ∧
      (s.before u).rest.length ≤ bound + 1 :=
    ⟨_, Nat.le_succ_of_le (by simp), Nat.le_succ (s.before u).rest.length⟩
  obtain ⟨p, hp, hD⟩ := declarationOf_finishes (bound + 1) (statement bound) (declaration bound) hs
  rw [← declaration] at hD
  obtain ⟨hrest, happly, hends⟩ := hp.recovering
  have hfn' := ((declaration_ending (bound + 1)).built.state_inFunction s).trans hfn
  rw [← hD] at hrest happly hends
  have hunit : s.program = (declaration (bound + 1) s).unit := by
    rw [State.program_cons hs.ne_nil hbound, State.program_nil hrest, Program.append_empty]
  have hmore : (declaration (bound + 1) s).state.before u = u := State.before_of_nil hrest hfn'
  refine ⟨?_, ?_⟩
  · rw [State.program_cons (by simp [hs.ne_nil]) hbound', happly, hunit]
    exact congrArg (fun u => (declaration (bound + 1) s).unit ++ u.program) hmore
  · rw [hunit]
    obtain ⟨a, hr, hnone⟩ | ⟨hr, e, he⟩ := hends
    · exact .inl ⟨a, by simp [Reply.unit, hr, Except.toOption], hnone⟩
    · exact .inr ⟨by simp [Reply.unit, hr, Except.toOption], e, he⟩

end Parser

/-! ## Whole programs -/

/-- Parsing is reading the program in front of the first state. -/
theorem parse_eq_program (tokens : List Token) :
    parse tokens = (Parser.State.start tokens).program :=
  parse_eq tokens

/-- The abandoned declarations of a program are those whose error was noted. -/
theorem parse_abandoned (tokens : List Token) :
    (parse tokens).abandoned = (parse tokens).errors.filterMap SyntaxError.unexpected? := by
  rw [parse_eq]
  exact ((Parser.program_built _).faithful _).symm

theorem Parser.State.start_rest {ts : List Token} (h : ∀ t ∈ ts, t.kind ≠ .eof) :
    (State.start ts).rest = ts := by
  have hall : (State.start (ts ++ [])).rest = ts ++ (State.start []).rest :=
    List.takeWhile_append_of_pos (by simpa using h)
  simpa [State.start] using hall

/-- Two lists of tokens, one behind the other, of which the first has no end of input. -/
theorem Parser.State.start_append {ts us : List Token} (h : ∀ t ∈ ts, t.kind ≠ .eof) :
    State.start (ts ++ us) = (State.start ts).before (State.start us) := by
  have hfind : ts.find? (fun t => decide (t.kind = .eof)) = none := by simpa using h
  simp only [State.start, State.before, State.mk.injEq, List.find?_append, hfind, Option.none_or,
    and_true]
  rw [List.takeWhile_append_of_pos (by simpa using h)]
  exact congrArg (· ++ _) (State.start_rest h).symm

theorem Parser.State.start_avoids {tokens : List Token} {kinds : List TokenKind}
    (h : ∀ t ∈ tokens.head?, t.kind ∉ kinds) : (State.start tokens).Avoids kinds := by
  intro t ht
  cases tokens with
  | nil => simp [State.start] at ht
  | cons u us =>
    by_cases hu : u.kind = .eof <;> simp_all [State.start]

/-- A program in which no declaration was abandoned is parsed apart from what stands behind it. -/
theorem parse_append {ts us : List Token} (hts : ∀ t ∈ ts, t.kind ≠ .eof)
    (habandoned : (parse ts).abandoned = []) (hus : ∀ t ∈ us.head?, t.kind ∉ [.elseWord]) :
    parse (ts ++ us) = parse ts ++ parse us := by
  rw [parse_eq_program] at habandoned
  rw [parse_eq_program, parse_eq_program, parse_eq_program, Parser.State.start_append hts]
  exact Parser.State.program_before habandoned (Parser.State.start_avoids hus) rfl

/-- A simple statement is parsed apart from what follows: it is one statement or one error. -/
theorem parse_simple_append {ts : List Token} {semicolon : Token}
    (hts : ∀ t ∈ ts, t.kind ∉ Parser.compoundKinds ++ [.eof])
    (hsemicolon : semicolon.kind = .semicolon) (us : List Token) :
    parse (ts ++ [semicolon] ++ us) = parse (ts ++ [semicolon]) ++ parse us ∧
    ((∃ statement, (parse (ts ++ [semicolon])).statements = [statement] ∧
        (parse (ts ++ [semicolon])).abandoned = []) ∨
      (parse (ts ++ [semicolon])).statements = [] ∧
        ∃ e, (parse (ts ++ [semicolon])).abandoned = [e]) := by
  -- The semicolon is no end of input either, so that the tokens are read as they are.
  have heof : ∀ t ∈ ts ++ [semicolon], t.kind ≠ .eof := by
    intro t ht
    obtain ht | rfl := List.mem_append.1 ht |>.imp_right List.mem_singleton.1
    · exact fun h => hts t ht (List.mem_append_right _ (by simp [h]))
    · simp [hsemicolon]
  have hsimple : (Parser.State.start (ts ++ [semicolon])).InSimple :=
    ⟨ts, semicolon, Parser.State.start_rest heof, hsemicolon,
      fun t ht hmem => hts t ht (List.mem_append_left _ hmem)⟩
  rw [parse_eq_program, parse_eq_program, parse_eq_program, Parser.State.start_append heof]
  exact Parser.State.program_simple hsimple rfl

/-- Syntax errors stay where they are, and parsing is done piece by piece.

* A program without an unexpected token is parsed apart from what stands behind it, unless that
  starts with `else`.
* What may be a simple statement, up to its semicolon, is parsed apart from what stands behind it;
  it is one statement, or one error and no statement.
* So a malformed simple statement between two programs takes nothing from either. -/
theorem parse_piecewise :
    (∀ A B : List Token, (∀ t ∈ A, t.kind ≠ .eof) →
      (∀ e ∈ (parse A).errors, e.unexpected? = none) → (∀ t ∈ B.head?, t.kind ≠ .elseWord) →
        parse (A ++ B) = parse A ++ parse B) ∧
    (∀ (X : List Token) (semicolon : Token) (B : List Token),
      (∀ t ∈ X, t.kind ∉
        [.semicolon, .leftBrace, .forWord, .whileWord, .ifWord, .returnWord, .eof]) →
      semicolon.kind = .semicolon →
        parse (X ++ [semicolon] ++ B) = parse (X ++ [semicolon]) ++ parse B ∧
        ((∃ s, (parse (X ++ [semicolon])).statements = [s] ∧
            (parse (X ++ [semicolon])).errors.filterMap SyntaxError.unexpected? = []) ∨
          (parse (X ++ [semicolon])).statements = [] ∧
            ∃ u, (parse (X ++ [semicolon])).errors.filterMap SyntaxError.unexpected? = [u])) ∧
    (∀ (A X : List Token) (semicolon : Token) (B : List Token), (∀ t ∈ A, t.kind ≠ .eof) →
      (∀ e ∈ (parse A).errors, e.unexpected? = none) →
      (∀ t ∈ (X ++ [semicolon]).head?, t.kind ≠ .elseWord) →
      (∀ t ∈ X, t.kind ∉
        [.semicolon, .leftBrace, .forWord, .whileWord, .ifWord, .returnWord, .eof]) →
      semicolon.kind = .semicolon →
        parse (A ++ (X ++ [semicolon] ++ B)) =
          parse A ++ (parse (X ++ [semicolon]) ++ parse B)) := by
  have happend : ∀ A B : List Token, (∀ t ∈ A, t.kind ≠ .eof) →
      (∀ e ∈ (parse A).errors, e.unexpected? = none) → (∀ t ∈ B.head?, t.kind ≠ .elseWord) →
        parse (A ++ B) = parse A ++ parse B := by
    intro A B hA herrors hB
    -- No declaration was given up, because no token was unexpected.
    have habandoned : (parse A).abandoned = [] := by
      simpa [parse_abandoned, List.filterMap_eq_nil_iff] using herrors
    exact parse_append hA habandoned (by simpa using hB)
  refine ⟨happend, ?_, ?_⟩
  · intro X semicolon B hX hsemicolon
    rw [← parse_abandoned]
    exact parse_simple_append hX hsemicolon B
  · intro A X semicolon B hA herrors hhead hX hsemicolon
    rw [happend A (X ++ [semicolon] ++ B) hA herrors (by cases X <;> simpa using hhead)]
    rw [(parse_simple_append hX hsemicolon B).1]

/-- Between `x;` and a lone `else`, the malformed `x x;` is one error of its own. -/
theorem parse_piecewise_malformed :
    (∀ e ∈ (parse [⟨.identifier, "x", none, 1⟩, ⟨.semicolon, ";", none, 1⟩]).errors,
      e.unexpected? = none) ∧
    (parse ([⟨.identifier, "x", none, 1⟩, ⟨.semicolon, ";", none, 1⟩] ++
        [⟨.identifier, "y", none, 2⟩, ⟨.semicolon, ";", none, 2⟩])).statements =
      [.expr (.var ⟨.identifier, "x", none, 1⟩), .expr (.var ⟨.identifier, "y", none, 2⟩)] ∧
    (parse ([⟨.identifier, "x", none, 2⟩, ⟨.identifier, "x", none, 2⟩] ++
        [⟨.semicolon, ";", none, 2⟩] ++ [⟨.elseWord, "else", none, 3⟩])).errors.map
        (fun e => e.token.line) = [2, 3] ∧
    (parse ([⟨.identifier, "x", none, 1⟩, ⟨.semicolon, ";", none, 1⟩] ++
        ([⟨.identifier, "x", none, 2⟩, ⟨.identifier, "x", none, 2⟩] ++
          [⟨.semicolon, ";", none, 2⟩] ++ [⟨.elseWord, "else", none, 3⟩]))).statements =
      [.expr (.var ⟨.identifier, "x", none, 1⟩)] := by
  obtain ⟨happend, hsimple, hbetween⟩ := parse_piecewise
  refine ⟨by decide, ?_, ?_, ?_⟩
  · rw [happend _ _ (by decide) (by decide) (by decide)]
    rfl
  · rw [(hsimple _ _ _ (by decide) rfl).1, parse_eq_program, parse_eq_program]
    rfl
  · rw [hbetween _ _ _ _ (by decide) (by decide) (by decide) (by decide) rfl, parse_eq_program,
      parse_eq_program, parse_eq_program]
    rfl

end Treewalk
