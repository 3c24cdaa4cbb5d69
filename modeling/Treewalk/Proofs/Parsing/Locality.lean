import Treewalk.Proofs.Parsing.Construction

/-!
# Where a statement ends

A parser for expressions looks at the token behind an expression. A statement ends with a token of
its own, and only an `else` behind it could still be part of it. `Parser.Closing` says so: what such
a parser has read to its end is the same whatever stands behind it, as long as that does not start
with `else`.
-/

namespace Treewalk.Parser

/-! ## What stands behind a statement -/

/-- What the parser has read to its end, with no declaration abandoned in it, is the same whatever
stands behind it, as long as that does not start with `else`. -/
structure Ending {α : Type} (p : ListParser α) : Prop where
  built : Built (fun _ => True) p
  apply_before {s u : State} {a : α} : (p s).result = .ok a → (p s).notes.abandoned = [] →
    u.Avoids [.elseWord] → p (s.before u) = (p s).before u

/-- In addition, what the parser reads to its end has at least one token. -/
structure Closing {α : Type} (p : ListParser α) : Prop extends Ending p where
  length_lt {s : State} {a : α} : (p s).result = .ok a →
    (p s).state.rest.length < s.rest.length

section
variable {α β : Type} {p : ListParser α} {f : α → ListParser β}

theorem Ending.pure (a : α) : Ending (pure a : ListParser α) where
  built := .pure a
  apply_before _ _ _ := rfl

/-- If no declaration was abandoned in the whole, none was in either part. -/
theorem Ending.bind (hp : Ending p) (hf : ∀ a, Ending (f a)) : Ending (p >>= f) where
  built := .bind hp.built fun a => (hf a).built
  apply_before {s u b} hok habandoned hu := by
    obtain ⟨a, ha⟩ := exists_ok_of_bind hok
    rw [bind_ok ha] at hok habandoned ⊢
    obtain ⟨habandoned, habandoned'⟩ := List.append_eq_nil_iff.1 habandoned
    have hfirst := hp.apply_before ha habandoned hu
    rw [bind_ok (by rw [hfirst]; exact ha), hfirst]
    simp only [Reply.before, (hf a).apply_before hok habandoned' hu]

theorem Ending.map {g : α → β} (hp : Ending p) : Ending (g <$> p) :=
  .bind hp fun a => .pure (g a)

/-- The end of a statement may be followed by an optional part that only an `else` starts. -/
theorem Ending.acceptElse : Ending (accept [.elseWord]) where
  built := .accept fun _ _ => trivial
  apply_before {s u _} _ _ hu := by
    by_cases hs : s.rest = []
    · have hmore : (s.before u).Avoids [.elseWord] := by simpa [State.Avoids, hs] using hu
      rw [accept_nil hs, accept_of_avoids hmore]
      rfl
    · exact accept_before hs _ u

/-- Whatever is read first, it is followed by at least one token of what is read next. -/
theorem Closing.bind (hp : Built (fun _ => True) p) (hf : ∀ a, Closing (f a)) :
    Closing (p >>= f) where
  built := .bind hp fun a => (hf a).built
  apply_before {s u b} hok habandoned hu := by
    obtain ⟨a, ha⟩ := exists_ok_of_bind hok
    rw [bind_ok ha] at hok habandoned ⊢
    obtain ⟨-, habandoned⟩ := List.append_eq_nil_iff.1 habandoned
    have hfirst := hp.apply_before s u <| List.ne_nil_of_length_pos <|
      Nat.zero_lt_of_lt ((hf a).length_lt hok)
    rw [bind_ok (by rw [hfirst]; exact ha), hfirst]
    simp only [Reply.before, (hf a).apply_before hok habandoned hu]
  length_lt {s b} hok := by
    obtain ⟨a, ha⟩ := exists_ok_of_bind hok
    rw [bind_ok ha] at hok ⊢
    exact Nat.lt_of_lt_of_le ((hf a).length_lt hok) (hp.rest_length_le s)

/-- What comes behind need not take tokens, because the first part has. -/
theorem Closing.andThen (hp : Closing p) (hf : ∀ a, Ending (f a)) : Closing (p >>= f) where
  toEnding := hp.toEnding.bind hf
  length_lt {s b} hok := by
    obtain ⟨a, ha⟩ := exists_ok_of_bind hok
    rw [bind_ok ha] at hok ⊢
    exact Nat.lt_of_le_of_lt ((hf a).built.rest_length_le _) (hp.length_lt ha)

theorem Closing.map {g : α → β} (hp : Closing p) : Closing (g <$> p) :=
  .andThen hp fun a => .pure (g a)

/-- A token that was taken stood in front of what is left, and nothing is noted for it. -/
theorem accept_some {kinds : List TokenKind} {s : State} {t : Token}
    (h : (accept kinds s).result = .ok (some t)) :
    t.kind ∈ kinds ∧ s = (accept kinds s).state.unread [t] ∧ (accept kinds s).notes = .none := by
  cases hs : s.rest with
  | nil =>
    rw [accept_nil hs] at h
    cases h
  | cons t' rest =>
    by_cases hmem : t'.kind ∈ kinds
    · rw [accept_of_mem hs hmem] at h ⊢
      cases h
      exact ⟨hmem, by rw [State.unread, List.singleton_append, ← hs], rfl⟩
    · rw [accept_of_not_mem hs hmem] at h
      cases h

/-- A token that is there can as well be asked for. -/
theorem expect_of_accept {kind : TokenKind} {message : String} {s : State} {t : Token}
    (h : (accept [kind] s).result = .ok (some t)) :
    expect kind message s = ⟨.ok t, (accept [kind] s).state, .none⟩ := by
  change (accept [kind] >>= _) s = _
  rw [bind_ok h, (accept_some h).2.2]
  rfl

/-- A token that was asked for and found could as well have been taken. -/
theorem exists_accept_of_expect {kind : TokenKind} {message : String} {s : State} {t : Token}
    (h : (expect kind message s).result = .ok t) : (accept [kind] s).result = .ok (some t) := by
  obtain ⟨o, ho⟩ := exists_ok_of_bind h
  change ((accept [kind] >>= _) s).result = _ at h
  rw [bind_ok ho] at h
  cases o with
  | none => simp [unexpected] at h
  | some t' => simpa [pure, Parser.pure, ho] using h

/-- A token that was found is found with more tokens behind, too. -/
theorem expect_before {kind : TokenKind} {message : String} {s : State} {t : Token}
    (h : (expect kind message s).result = .ok t) (u : State) :
    expect kind message (s.before u) = (expect kind message s).before u := by
  have haccept := exists_accept_of_expect h
  have hmore : accept [kind] (s.before u) = (accept [kind] s).before u := by
    refine accept_before (fun hs => ?_) [kind] u
    rw [accept_nil hs] at haccept
    cases haccept
  have hmore' : (accept [kind] (s.before u)).result = .ok (some t) := by rw [hmore]; exact haccept
  rw [expect_of_accept hmore', expect_of_accept haccept, hmore]
  rfl

theorem Closing.expect (kind : TokenKind) (message : String) : Closing (expect kind message) where
  built := .expect message trivial
  apply_before hok _ _ := expect_before hok _
  length_lt {s t} hok := by
    have haccept := exists_accept_of_expect hok
    rw [expect_of_accept haccept, congrArg State.rest (accept_some haccept).2.1]
    simp

theorem Closing.withinFunction (hp : Closing p) : Closing (withinFunction p) where
  built := .withinFunction hp.built
  apply_before {s _ _} hok habandoned hu :=
    withinFunction_before (hp.apply_before (s := s.within true) hok habandoned hu)
  length_lt {s _} hok := hp.length_lt (s := s.within true) hok

theorem Closing.unexpected (message : String) : Closing (unexpected message : ListParser α) where
  built := .unexpected message
  apply_before h := nomatch h
  length_lt h := nomatch h

/-- A declaration takes at least one token, also if it is abandoned. -/
theorem Closing.recovering_length_lt (hp : Closing p) {s : State} (hs : s.rest ≠ []) :
    (recovering p s).state.rest.length < s.rest.length := by
  cases hr : (p s).result with
  | ok a =>
    rw [recovering_ok hr]
    exact hp.length_lt hr
  | error e =>
    rw [recovering_error hr]
    have hle := hp.built.rest_length_le s
    by_cases hnil : (p s).state.rest = []
    · simpa [hnil, synchronize] using List.length_pos_iff.2 hs
    · exact Nat.lt_of_lt_of_le (Built.length_synchronize_lt hnil) hle

/-- A declaration that was not abandoned ends as what is tried for it does. -/
theorem Ending.recovering (hp : Closing p) : Ending (recovering p) where
  built := .recovering (fun _ => trivial) hp.built
  apply_before {s _ _} _ habandoned hu := by
    cases hr : (p s).result with
    | error e => simp [recovering_error hr] at habandoned
    | ok a =>
      rw [recovering_ok hr] at habandoned ⊢
      have hmore := hp.apply_before hr habandoned hu
      rw [recovering_ok (by rw [hmore]; exact hr), hmore]
      rfl

end

/-! ## Statements -/

section
variable {E : ListParser Expr} {S : ListParser Stmt} {D : ListParser (Option Stmt)}

theorem expressionStatement_closing (hE : Built (fun _ => True) E) :
    Closing (expressionStatement E) :=
  .bind hE fun _ => .andThen (.expect _ _) fun _ => .pure _

theorem printStatement_closing (hE : Built (fun _ => True) E) : Closing (printStatement E) :=
  .bind hE fun _ => .andThen (.expect _ _) fun _ => .pure _

/-- A declaration of a variable ends with its semicolon. -/
theorem varDeclaration_closing (hE : Built (fun _ => True) E) : Closing (varDeclaration E) := by
  have hend : ∀ (name : Token) (e : Option Expr), Closing (do
      let _ ← expect .semicolon "Expect ';' after variable declaration."
      pure (Stmt.var name e)) := fun _ _ => .andThen (.expect _ _) fun _ => .pure _
  refine .bind (.expect _ trivial) fun name => .bind (.accept fun _ _ => trivial) fun o => ?_
  cases o with
  | none => exact hend name none
  | some equals => exact .bind hE.map (hend name)

/-- A return statement ends with its semicolon, with a value or without one. -/
theorem returnStatement_closing (hE : Built (fun _ => True) E) (keyword : Token) :
    Closing (returnStatement E keyword) := by
  have hend : Closing (do
      let value ← clause .semicolon E
      let _ ← expect .semicolon "Expect ';' after return value."
      pure (Stmt.ret keyword value)) :=
    .bind (clause_built hE _) fun _ => .andThen (.expect _ _) fun _ => .pure _
  refine .bind .inFunction fun b => ?_
  cases b with
  | true => exact hend
  | false => exact .bind (.report rfl) fun _ => hend

/-- An if statement ends with one of its branches, and an `else` behind the first one would be part
of it. -/
theorem ifStatement_closing (hE : Built (fun _ => True) E) (hS : Closing S) :
    Closing (ifStatement E S) := by
  -- Behind the first branch nothing more is needed; only there does an `else` make a difference.
  refine .andThen (.expect _ _) fun _ => Closing.toEnding <|
    .bind hE fun cond => .andThen (.expect _ _) fun _ => Closing.toEnding <|
    .andThen hS fun thenBranch => Ending.acceptElse.bind fun o => ?_
  cases o with
  | none => exact .pure _
  | some word => exact .bind hS.toEnding.map fun _ => .pure _

theorem whileStatement_closing (hE : Built (fun _ => True) E) (hS : Closing S) :
    Closing (whileStatement E S) :=
  .bind (.expect _ trivial) fun _ => .bind hE fun _ => .bind (.expect _ trivial) fun _ =>
    .andThen hS fun _ => .pure _

/-- A for statement ends with its body. -/
theorem forStatement_closing (hE : Built (fun _ => True) E) (hS : Closing S) :
    Closing (forStatement E S) :=
  .bind (.expect _ trivial) fun _ => .bind (initializer_built hE) fun _ =>
    .bind (clause_built hE _) fun _ => .bind (.expect _ trivial) fun _ =>
    .bind (clause_built hE _) fun _ => .bind (.expect _ trivial) fun _ =>
    .andThen hS fun _ => .pure _

/-- A block ends with its brace. -/
theorem block_closing (hD : Built (fun _ => True) D) (bound : Nat) : Closing (block bound D) :=
  .bind (declarations_built hD bound) fun _ => .andThen (.expect _ _) fun _ => .pure _

theorem funDeclaration_closing (hD : Built (fun _ => True) D) (bound : Nat) :
    Closing (funDeclaration bound D) :=
  .bind (.expect _ trivial) fun _ => .bind (.expect _ trivial) fun _ =>
    .bind (.items (parameter_built trivial) trivial bound) fun _ =>
    .bind (.expect _ trivial) fun _ => .bind (.expect _ trivial) fun _ =>
    .andThen (block_closing hD bound).withinFunction fun _ => .pure _

/-- One step of the induction for statements: all of them end with a token or a statement of their
own. -/
theorem statementOf_closing (bound : Nat) (hS : Closing S) (hD : Built (fun _ => True) D) :
    Closing (statementOf bound S D) := by
  have hE : Built (fun _ => True) (expression bound : ListParser Expr) :=
    (expression_built bound).any
  refine .bind (.accept fun _ _ => trivial) fun o => ?_
  cases o with
  | none => exact expressionStatement_closing hE
  | some t =>
    dsimp only
    split
    · exact ifStatement_closing hE hS
    · exact forStatement_closing hE hS
    · exact whileStatement_closing hE hS
    · exact printStatement_closing hE
    · exact returnStatement_closing hE t
    · exact (block_closing hD bound).map

/-- What is tried for a declaration ends as statements do; recovery comes on top. -/
theorem declarationOf_recovers (bound : Nat) (hS : Closing S) (hD : Built (fun _ => True) D) :
    ∃ p, Closing p ∧ declarationOf bound S D = recovering p := by
  refine ⟨_, .bind (.accept fun _ _ => trivial) fun o => ?_, rfl⟩
  cases o with
  | none => exact statementOf_closing bound hS hD
  | some t =>
    dsimp only
    split
    · exact funDeclaration_closing hD bound
    · exact varDeclaration_closing (expression_built bound).any

end

/-- Statements end with a token of their own, and so does what a declaration reads unless it is
abandoned. -/
theorem statement_closing (bound : Nat) :
    Closing (statement bound) ∧ ∃ p, Closing p ∧ declaration bound = recovering p := by
  induction bound with
  | zero =>
    rw [statement, declaration]
    exact ⟨.unexpected _, _, .unexpected _, rfl⟩
  | succ bound ih =>
    obtain ⟨hS, p, hp, hD⟩ := ih
    have hbuilt : Built (fun _ => True) (declaration bound : ListParser (Option Stmt)) :=
      (statement_built bound).2
    exact ⟨by rw [statement]; exact statementOf_closing _ hS hbuilt,
      by rw [declaration]; exact declarationOf_recovers _ hS hbuilt⟩

theorem declaration_ending (bound : Nat) : Ending (declaration bound) := by
  obtain ⟨-, p, hp, hD⟩ := statement_closing bound
  rw [hD]
  exact .recovering hp

/-- A declaration takes a token if there is one, either because it was read to its end or because
recovery passes over one. -/
theorem declaration_length_lt (bound : Nat) {s : State} (hs : s.rest ≠ []) :
    (declaration bound s).state.rest.length < s.rest.length := by
  obtain ⟨-, p, hp, hD⟩ := statement_closing bound
  rw [hD]
  exact hp.recovering_length_lt hs

end Treewalk.Parser
