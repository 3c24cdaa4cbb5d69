import Treewalk.Proofs.Likeness.Store
import Treewalk.Proofs.Parsing.Cursors

/-!
# Parsing of tokens that are alike

From tokens that are alike a parser makes trees that are alike, and it finds errors that are alike,
at the same places and in the same order: it decides by kinds, lexemes and literals only. This holds
of malformed input as well, where the parser passes over tokens.
-/

namespace Treewalk

variable {L : Likeness}

namespace Parser

structure State.Like (L : Likeness) (s s' : State) : Prop where
  rest : List.Forall₂ L.Like s.rest s'.rest
  stop : L.Like s.stop s'.stop
  inFunction : s.inFunction = s'.inFunction

/-- Results are related by `R`, and states and errors are alike. -/
structure Reply.Like (L : Likeness) {α β : Type} (R : α → β → Prop) (r : ListReply α)
    (r' : ListReply β) : Prop where
  result : ResultRel (Unexpected.Like L) R r.result r'.result
  state : r.state.Like L r'.state
  errors : List.Forall₂ (SyntaxError.Like L) r.notes.errors r'.notes.errors

/-- In front of tokens that are alike the parsers end alike. -/
def Like (L : Likeness) {α β : Type} (R : α → β → Prop) (p : ListParser α) (p' : ListParser β) :
    Prop :=
  ∀ s s', s.Like L s' → (p s).Like L R (p' s')

/-- The next tokens are alike, be they tokens left or the ends of the input. -/
theorem State.Like.current {s s' : State} (h : s.Like L s') : L.Like s.current s'.current := by
  obtain ⟨rest, stop, hstop, fn⟩ := s
  obtain ⟨rest', stop', hstop', fn'⟩ := s'
  have hrest : List.Forall₂ L.Like rest rest' := h.rest
  cases hrest with
  | nil => exact h.stop
  | cons ht _ => exact ht

namespace Like

variable {α β γ δ : Type} {R R' : α → β → Prop} {S : γ → δ → Prop} {p : ListParser α}
  {p' : ListParser β} {f : α → ListParser γ} {f' : β → ListParser δ}

/-! ## Combinators -/

theorem pure {a : α} {b : β} (h : R a b) : (Pure.pure a : ListParser α).Like L R (Pure.pure b) :=
  fun _ _ hs => ⟨.ok h, hs, .nil⟩

/-- If the first parsers end alike, both go on or both stop, with results or errors that are
related. -/
theorem bind (hp : p.Like L R p') (hf : ∀ a b, R a b → (f a).Like L S (f' b)) :
    (p >>= f).Like L S (p' >>= f') := by
  intro s s' hs
  obtain ⟨hresult, hstate, herrors⟩ := hp s s' hs
  obtain ⟨a, b, ha, hb, hab⟩ | ⟨e, e', he, he', hee'⟩ := resultRel_cases hresult
  · rw [bind_ok ha, bind_ok hb]
    obtain ⟨hresult', hstate', herrors'⟩ := hf a b hab _ _ hstate
    exact ⟨hresult', hstate', List.rel_append herrors herrors'⟩
  · rw [bind_error he, bind_error he']
    exact ⟨.error hee', hstate, herrors⟩

theorem map {g : α → γ} {g' : β → δ} (hp : p.Like L R p') (hg : ∀ a b, R a b → S (g a) (g' b)) :
    (g <$> p).Like L S (g' <$> p') :=
  hp.bind fun a b hab => .pure (hg a b hab)

theorem unexpected (message : String) :
    (unexpected message : ListParser α).Like L R (Parser.unexpected message : ListParser β) :=
  fun _ _ hs => ⟨.error (.mk message hs.current), hs, .nil⟩

theorem report {e e' : SyntaxError} (h : e.Like L e') :
    (report e).Like L (fun _ _ => True) (Parser.report e') :=
  fun _ _ hs => ⟨.ok trivial, hs, .cons h .nil⟩

theorem peek : Parser.peek.Like L L.Like Parser.peek :=
  fun _ _ hs => ⟨.ok hs.current, hs, .nil⟩

theorem inFunction : Parser.inFunction.Like L Eq Parser.inFunction :=
  fun _ _ hs => ⟨.ok hs.inFunction, hs, .nil⟩

/-- A look at the next token sees its kind, which tokens that are alike share. -/
theorem check (kind : TokenKind) : (check kind).Like L Eq (Parser.check kind) := by
  intro s s' hs
  refine ⟨.ok ?_, hs, .nil⟩
  obtain ⟨rest, stop, hstop, fn⟩ := s
  obtain ⟨rest', stop', hstop', fn'⟩ := s'
  have hrest : List.Forall₂ L.Like rest rest' := hs.rest
  cases hrest with
  | nil => rfl
  | cons ht _ => simp [L.kind ht]

theorem atEnd : Parser.atEnd.Like L Eq Parser.atEnd := by
  intro s s' hs
  refine ⟨.ok ?_, hs, .nil⟩
  obtain ⟨rest, stop, hstop, fn⟩ := s
  obtain ⟨rest', stop', hstop', fn'⟩ := s'
  have hrest : List.Forall₂ L.Like rest rest' := hs.rest
  cases hrest <;> rfl

/-- A token is taken on both sides or on none. -/
theorem accept (kinds : List TokenKind) :
    (accept kinds).Like L (Option.Rel L.Like) (Parser.accept kinds) := by
  intro s s' hs
  have hrest := hs.rest
  -- The lists have to be variables for the cases of their relation.
  generalize h : s.rest = rest at hrest
  generalize h' : s'.rest = rest' at hrest
  cases hrest with
  | nil =>
    rw [accept_nil h, accept_nil h']
    exact ⟨.ok .none, hs, .nil⟩
  | @cons t t' _ _ ht hrest =>
    by_cases hkind : t.kind ∈ kinds
    · rw [accept_of_mem h hkind, accept_of_mem h' (L.kind ht ▸ hkind)]
      exact ⟨.ok (.some ht), ⟨hrest, hs.stop, hs.inFunction⟩, .nil⟩
    · rw [accept_of_not_mem h hkind, accept_of_not_mem h' (L.kind ht ▸ hkind)]
      exact ⟨.ok .none, hs, .nil⟩

theorem expect (kind : TokenKind) (message : String) :
    (expect kind message).Like L L.Like (Parser.expect kind message) := by
  refine (accept [kind]).bind fun o o' ho => ?_
  cases ho with
  | none => exact unexpected message
  | some ht => exact .pure ht

theorem withinFunction (hp : p.Like L R p') :
    (withinFunction p).Like L R (Parser.withinFunction p') := by
  intro s s' hs
  obtain ⟨hresult, hstate, herrors⟩ :=
    hp { s with inFunction := true } { s' with inFunction := true } ⟨hs.rest, hs.stop, rfl⟩
  exact ⟨hresult, ⟨hstate.rest, hstate.stop, hs.inFunction⟩, herrors⟩

/-- Recovery stops at the same place on both sides, because it looks at kinds only. -/
theorem boundary {ts us : List Token} (h : List.Forall₂ L.Like ts us) {t u : Token}
    (ht : L.Like t u) : List.Forall₂ L.Like (boundary t ts) (Parser.boundary u us) := by
  induction h generalizing t u with
  | nil => exact .nil
  | cons ht' hrest ih =>
    simp only [Parser.boundary, L.kind ht, L.kind ht']
    split
    · exact .cons ht' hrest
    · exact ih ht'

/-- Recovery ends at the same boundary. -/
theorem recovering (hp : p.Like L R p') :
    (recovering p).Like L (Option.Rel R) (Parser.recovering p') := by
  intro s s' hs
  obtain ⟨hresult, hstate, herrors⟩ := hp s s' hs
  obtain ⟨a, b, ha, hb, hab⟩ | ⟨e, e', he, he', hee'⟩ := resultRel_cases hresult
  · rw [recovering_ok ha, recovering_ok hb]
    exact ⟨.ok (.some hab), hstate, herrors⟩
  · rw [recovering_error he, recovering_error he']
    have hsynchronize : ∀ {ts us : List Token}, List.Forall₂ L.Like ts us →
        List.Forall₂ L.Like (synchronize ts) (synchronize us) := by
      intro ts us h
      cases h with
      | nil => exact .nil
      | cons ht hrest => exact boundary hrest ht
    exact ⟨.ok .none, ⟨hsynchronize hstate.rest, hstate.stop, hstate.inFunction⟩,
      List.rel_append herrors (.cons (.unexpectedToken hee') .nil)⟩

/-- Both repetitions have the same number of rounds. -/
theorem many {p : ListParser (Option α)} {p' : ListParser (Option β)}
    (hp : p.Like L (Option.Rel R) p')
    (bound : Nat) : (many p bound).Like L (List.Forall₂ R) (Parser.many p' bound) := by
  induction bound with
  | zero => exact .pure .nil
  | succ bound ih =>
    refine hp.bind fun o o' ho => ?_
    cases ho with
    | none => exact .pure .nil
    | some hab => exact ih.bind fun _ _ hrest => .pure (.cons hab hrest)

/-- The items before may decide what is reported, so that they are related too. -/
theorem commaList {item : List α → ListParser α} {item' : List β → ListParser β}
    (hitem : ∀ before before', List.Forall₂ R before before' →
      (item before).Like L R (item' before'))
    (bound : Nat) {before : List α} {before' : List β} (hbefore : List.Forall₂ R before before') :
    (commaList item bound before).Like L (List.Forall₂ R)
      (Parser.commaList item' bound before') := by
  induction bound generalizing before before' with
  | zero =>
    exact (hitem _ _ hbefore).bind fun _ _ hab => .pure (List.rel_append hbefore (.cons hab .nil))
  | succ bound ih =>
    refine (hitem _ _ hbefore).bind fun _ _ hab => (accept [.comma]).bind fun o o' ho => ?_
    cases ho with
    | none => exact .pure (List.rel_append hbefore (.cons hab .nil))
    | some _ => exact ih (List.rel_append hbefore (.cons hab .nil))

theorem items {item : List α → ListParser α} {item' : List β → ListParser β}
    (hitem : ∀ before before', List.Forall₂ R before before' →
      (item before).Like L R (item' before'))
    (bound : Nat) : (items bound item).Like L (List.Forall₂ R) (Parser.items bound item') := by
  refine (check .rightParen).bind fun b b' hb => ?_
  subst hb
  split
  · exact .pure .nil
  · exact commaList hitem bound .nil

end Like

/-! ## Expressions -/

section
variable {inner inner' : ListParser Expr}

/-- The kind decides which primary expression it is, and the literal in the token what its value is.
-/
theorem primary_like (h : inner.Like L (Expr.Like L) inner') :
    (primary inner).Like L (Expr.Like L) (primary inner') := by
  refine Like.peek.bind fun t u ht => ?_
  have hliteral : ∀ value, (primary.literalToken t value).Like L (Expr.Like L)
      (primary.literalToken u value) := by
    intro value
    simp only [primary.literalToken, L.kind ht]
    exact (Like.accept _).bind fun _ _ _ => .pure (.literal value)
  -- From here on both parsers branch on the same kind and the same literal.
  simp only [L.kind ht, L.literal ht]
  split
  case h_6 => exact (Like.accept _).bind fun _ _ _ => .pure (.var ht)
  case h_7 =>
    refine (Like.accept _).bind fun _ _ _ => h.bind fun e e' he => ?_
    exact (Like.expect _ _).bind fun _ _ _ => .pure (.group he)
  case h_8 => exact .unexpected _
  all_goals exact hliteral _

/-- How many arguments there are before is the same on both sides, and with it whether one is
reported. -/
theorem argument_like (h : inner.Like L (Expr.Like L) inner') (before before' : List Expr)
    (hbefore : List.Forall₂ (Expr.Like L) before before') :
    (argument inner before).Like L (Expr.Like L) (argument inner' before') := by
  unfold argument
  rw [hbefore.length_eq]
  split
  · refine Like.peek.bind fun t u ht => ?_
    exact (Like.report (.tooManyArguments ht)).bind fun _ _ _ => h
  · exact h

/-- The arguments of a call and the parenthesis that closes them are alike. -/
def CallLike (L : Likeness) (x y : List Expr × Token) : Prop :=
  List.Forall₂ (Expr.Like L) x.1 y.1 ∧ L.Like x.2 y.2

theorem arguments_like (bound : Nat) (h : inner.Like L (Expr.Like L) inner') :
    (arguments bound inner).Like L (Option.Rel (CallLike L)) (arguments bound inner') := by
  refine (Like.accept _).bind fun o o' ho => ?_
  cases ho with
  | none => exact .pure .none
  | some _ =>
    refine (Like.items (argument_like h) bound).bind fun args args' hargs => ?_
    exact (Like.expect _ _).bind fun paren paren' hparen => .pure (.some ⟨hargs, hparen⟩)

/-- The calls are put around the callee one by one, on both sides alike. -/
theorem call_like (bound : Nat) (h : inner.Like L (Expr.Like L) inner') :
    (call bound inner).Like L (Expr.Like L) (call bound inner') := by
  refine (primary_like h).bind fun callee callee' hcallee => ?_
  refine (Like.many (arguments_like bound h) bound).bind fun calls calls' hcalls => .pure ?_
  exact List.rel_foldl (fun _ _ he _ _ hcall => .call he hcall.2 hcall.1) hcallee hcalls

theorem unary_like (bound : Nat) (h : inner.Like L (Expr.Like L) inner') :
    (unary bound inner).Like L (Expr.Like L) (unary bound inner') := by
  refine (Like.many (Like.accept _) bound).bind fun ops ops' hops => ?_
  refine (call_like bound h).bind fun operand operand' hoperand => .pure ?_
  exact List.rel_foldr (fun _ _ hop _ _ he => .unary hop he) hoperand hops

/-- Nodes of a level are alike if their parts are, whichever node the level makes. -/
theorem node_like {level : Level} (hlevel : level ∈ Level.ladder) {l l' r r' : Expr} {t u : Token}
    (hl : l.Like L l') (ht : L.Like t u) (hr : r.Like L r') :
    (level.node l t r).Like L (level.node l' u r') := by
  simp only [Level.ladder, List.mem_cons, List.not_mem_nil, or_false] at hlevel
  rcases hlevel with rfl | rfl | rfl | rfl | rfl | rfl
  · exact .logical hl ht hr
  · exact .logical hl ht hr
  all_goals exact .binary hl ht hr

/-- Operators are taken in step, and grouped alike. -/
theorem level_like {level : Level} (hlevel : level ∈ Level.ladder) (bound : Nat)
    {operand operand' : ListParser Expr} (h : operand.Like L (Expr.Like L) operand') :
    (level.expression bound operand).Like L (Expr.Like L) (level.expression bound operand') := by
  have hoperation : (operation level.operators operand).Like L
      (Option.Rel fun x y => L.Like x.1 y.1 ∧ x.2.Like L y.2)
      (operation level.operators operand') := by
    refine (Like.accept _).bind fun o o' ho => ?_
    cases ho with
    | none => exact .pure .none
    | some hop => exact h.bind fun rhs rhs' hrhs => .pure (.some ⟨hop, hrhs⟩)
  refine h.bind fun first first' hfirst => ?_
  refine (Like.many hoperation bound).bind fun rest rest' hrest => .pure ?_
  exact List.rel_foldl (fun _ _ he _ _ hx => node_like hlevel he hx.1 hx.2) hfirst hrest

theorem levels_like (bound : Nat) (h : inner.Like L (Expr.Like L) inner') {levels : List Level}
    (hlevels : levels ⊆ Level.ladder) :
    (levels.foldr (fun level operand => level.expression bound operand) (unary bound inner)).Like L
      (Expr.Like L)
      (levels.foldr (fun level operand => level.expression bound operand)
        (unary bound inner')) := by
  induction levels with
  | nil => exact unary_like bound h
  | cons level levels ih =>
    obtain ⟨hlevel, hlevels⟩ := List.cons_subset.1 hlevels
    exact level_like hlevel bound (ih hlevels)

/-- The target is a name on both sides or on none. -/
theorem assignment_like (bound : Nat) (h : inner.Like L (Expr.Like L) inner') :
    (assignment bound inner).Like L (Expr.Like L) (assignment bound inner') := by
  refine (levels_like bound h (List.Subset.refl _)).bind fun target target' htarget => ?_
  refine (Like.accept _).bind fun o o' ho => ?_
  cases ho with
  | none => exact .pure htarget
  | some hequals =>
    refine h.bind fun value value' hvalue => ?_
    -- Anything but a name is reported and kept, whatever it is.
    have hinvalid := (Like.report (.invalidAssignmentTarget hequals)).bind fun _ _ _ =>
      Like.pure htarget
    cases htarget with
    | var hname => exact .pure (.assign hname hvalue)
    | _ => exact hinvalid

end

/-- Expressions, by induction on how deep they may go. -/
theorem expression_like (bound : Nat) :
    (expression bound).Like L (Expr.Like L) (expression bound) := by
  induction bound with
  | zero => exact .unexpected _
  | succ bound ih => exact assignment_like (bound + 1) ih

/-! ## Statements -/

section
variable {expression expression' : ListParser Expr} {statement statement' : ListParser Stmt}
  {declaration declaration' : ListParser (Option Stmt)}

theorem expressionStatement_like (h : expression.Like L (Expr.Like L) expression') :
    (expressionStatement expression).Like L (Stmt.Like L) (expressionStatement expression') :=
  h.bind fun _ _ he => (Like.expect _ _).bind fun _ _ _ => .pure (.expr he)

theorem printStatement_like (h : expression.Like L (Expr.Like L) expression') :
    (printStatement expression).Like L (Stmt.Like L) (printStatement expression') :=
  h.bind fun _ _ he => (Like.expect _ _).bind fun _ _ _ => .pure (.print he)

theorem present_like {α β : Type} {R : α → β → Prop} {p : ListParser α} {p' : ListParser β}
    (h : p.Like L R p') : (some <$> p).Like L (Option.Rel R) (some <$> p') :=
  h.map fun _ _ hab => .some hab

/-- With an initial value on both sides or on none. -/
theorem varDeclaration_like (h : expression.Like L (Expr.Like L) expression') :
    (varDeclaration expression).Like L (Stmt.Like L) (varDeclaration expression') := by
  refine (Like.expect _ _).bind fun name name' hname => (Like.accept _).bind fun o o' ho => ?_
  cases ho with
  | none =>
    refine Like.bind (R := Option.Rel (Expr.Like L)) (.pure .none) fun e e' he => ?_
    exact (Like.expect _ _).bind fun _ _ _ => .pure (.var hname he)
  | some _ =>
    refine (present_like h).bind fun e e' he => ?_
    exact (Like.expect _ _).bind fun _ _ _ => .pure (.var hname he)

theorem clause_like (stop : TokenKind) (h : expression.Like L (Expr.Like L) expression') :
    (clause stop expression).Like L (Option.Rel (Expr.Like L)) (clause stop expression') := by
  refine (Like.check stop).bind fun b b' hb => ?_
  subst hb
  split
  · exact .pure .none
  · exact present_like h

/-- Both stand in a function or both do not, so that both are reported or none is. -/
theorem returnStatement_like (h : expression.Like L (Expr.Like L) expression') {t u : Token}
    (ht : L.Like t u) :
    (returnStatement expression t).Like L (Stmt.Like L) (returnStatement expression' u) := by
  -- Behind the report, if there is one, both statements are read alike.
  have hrest : (do
      let value ← clause .semicolon expression
      let _ ← expect .semicolon "Expect ';' after return value."
      pure (.ret t value) : ListParser Stmt).Like L (Stmt.Like L) (do
      let value ← clause .semicolon expression'
      let _ ← expect .semicolon "Expect ';' after return value."
      pure (.ret u value)) :=
    (clause_like _ h).bind fun _ _ he => (Like.expect _ _).bind fun _ _ _ => .pure (.ret ht he)
  refine Like.inFunction.bind fun fn fn' hfn => ?_
  subst hfn
  split
  · exact (Like.report (.returnOutsideFunction ht)).bind fun _ _ _ => hrest
  · exact hrest

theorem ifStatement_like (h : expression.Like L (Expr.Like L) expression')
    (hstatement : statement.Like L (Stmt.Like L) statement') :
    (ifStatement expression statement).Like L (Stmt.Like L)
      (ifStatement expression' statement') := by
  refine (Like.expect _ _).bind fun _ _ _ => h.bind fun cond cond' hcond => ?_
  refine (Like.expect _ _).bind fun _ _ _ => hstatement.bind fun s s' hs => ?_
  refine (Like.accept _).bind fun o o' ho => ?_
  cases ho with
  | none => exact .pure (.branch hcond hs .none)
  | some _ => exact (present_like hstatement).bind fun r r' hr => .pure (.branch hcond hs hr)

theorem whileStatement_like (h : expression.Like L (Expr.Like L) expression')
    (hstatement : statement.Like L (Stmt.Like L) statement') :
    (whileStatement expression statement).Like L (Stmt.Like L)
      (whileStatement expression' statement') := by
  refine (Like.expect _ _).bind fun _ _ _ => h.bind fun cond cond' hcond => ?_
  exact (Like.expect _ _).bind fun _ _ _ => hstatement.bind fun s s' hs => .pure (.loop hcond hs)

/-- The first clause of a for statement has the same form on both sides. -/
theorem initializer_like (h : expression.Like L (Expr.Like L) expression') :
    (initializer expression).Like L (Option.Rel (Stmt.Like L)) (initializer expression') := by
  refine (Like.accept _).bind fun o o' ho => ?_
  cases ho with
  | none => exact present_like (expressionStatement_like h)
  | some ht =>
    simp only [L.kind ht]
    split
    · exact .pure .none
    · exact present_like (varDeclaration_like h)

/-- A for statement is put together from its clauses in the same way, whichever of them are there.
-/
theorem forLoop_like {first first' : Option Stmt} {cond cond' increment increment' : Option Expr}
    {body body' : Stmt} (hfirst : Option.Rel (Stmt.Like L) first first')
    (hcond : Option.Rel (Expr.Like L) cond cond')
    (hincrement : Option.Rel (Expr.Like L) increment increment') (hbody : body.Like L body') :
    (Stmt.forLoop first cond increment body).Like L (.forLoop first' cond' increment' body') := by
  -- A condition that is missing stands for `true` on both sides.
  have hcond' : (cond.getD (.literal (.bool true))).Like L
      (cond'.getD (.literal (.bool true))) := by
    cases hcond with
    | none => exact .literal _
    | some he => exact he
  cases hfirst with
  | none =>
    cases hincrement with
    | none => exact .loop hcond' hbody
    | some he => exact .loop hcond' (.block (.cons hbody (.cons (.expr he) .nil)))
  | some hs =>
    cases hincrement with
    | none => exact .block (.cons hs (.cons (.loop hcond' hbody) .nil))
    | some he =>
      exact .block (.cons hs (.cons
        (.loop hcond' (.block (.cons hbody (.cons (.expr he) .nil)))) .nil))

theorem forStatement_like (h : expression.Like L (Expr.Like L) expression')
    (hstatement : statement.Like L (Stmt.Like L) statement') :
    (forStatement expression statement).Like L (Stmt.Like L)
      (forStatement expression' statement') := by
  refine (Like.expect _ _).bind fun _ _ _ => (initializer_like h).bind fun _ _ hfirst => ?_
  refine (clause_like _ h).bind fun _ _ hcond => (Like.expect _ _).bind fun _ _ _ => ?_
  refine (clause_like _ h).bind fun _ _ hincrement => (Like.expect _ _).bind fun _ _ _ => ?_
  exact hstatement.bind fun _ _ hbody => .pure (forLoop_like hfirst hcond hincrement hbody)

/-- Statements that were found, where those that were abandoned are left out. -/
theorem filterMap_like {found found' : List (Option Stmt)}
    (h : List.Forall₂ (Option.Rel (Stmt.Like L)) found found') :
    List.Forall₂ (Stmt.Like L) (found.filterMap id) (found'.filterMap id) :=
  List.rel_filterMap (fun _ _ ho => ho) h

/-- Both lists stop at the same brace. -/
theorem block_like (bound : Nat)
    (h : declaration.Like L (Option.Rel (Stmt.Like L)) declaration') :
    (block bound declaration).Like L (List.Forall₂ (Stmt.Like L)) (block bound declaration') := by
  have hnext : (declarations.next declaration).Like L (Option.Rel (Option.Rel (Stmt.Like L)))
      (declarations.next declaration') := by
    refine Like.atEnd.bind fun done done' hdone => (Like.check _).bind fun stop stop' hstop => ?_
    subst hdone hstop
    split
    · exact .pure .none
    · exact present_like h
  refine Like.bind (R := List.Forall₂ (Stmt.Like L)) ?_ fun _ _ hbody =>
    (Like.expect _ _).bind fun _ _ _ => .pure hbody
  exact (Like.many hnext bound).bind fun _ _ hfound => .pure (filterMap_like hfound)

/-- Names are compared by their lexemes, so that a name is reported on both sides or on none. -/
theorem parameter_like (before before' : List Token)
    (hbefore : List.Forall₂ L.Like before before') :
    (parameter before).Like L L.Like (parameter before') := by
  -- Whether the name has been there before is the same question for both lists.
  have hany : ∀ {t u : Token}, L.Like t u → (before.any fun p => p.lexeme == t.lexeme) =
      before'.any fun p => p.lexeme == u.lexeme := by
    intro t u ht
    rw [L.lexeme ht]
    induction hbefore with
    | nil => rfl
    | cons hp _ ih => simp only [List.any_cons, L.lexeme hp, ih]
  have hrest : (do
      let name ← expect .identifier "Expect parameter name."
      if before.any fun p => p.lexeme == name.lexeme then
        report (.duplicateParameter name)
      pure name : ListParser Token).Like L L.Like (do
      let name ← expect .identifier "Expect parameter name."
      if before'.any fun p => p.lexeme == name.lexeme then
        report (.duplicateParameter name)
      pure name) := by
    refine (Like.expect _ _).bind fun name name' hname => ?_
    rw [hany hname]
    split
    · exact (Like.report (.duplicateParameter hname)).bind fun _ _ _ => .pure hname
    · exact .pure hname
  unfold parameter
  rw [hbefore.length_eq]
  split
  · refine Like.peek.bind fun _ _ ht => ?_
    exact (Like.report (.tooManyParameters ht)).bind fun _ _ _ => hrest
  · exact hrest

theorem funDeclaration_like (bound : Nat)
    (h : declaration.Like L (Option.Rel (Stmt.Like L)) declaration') :
    (funDeclaration bound declaration).Like L (Stmt.Like L)
      (funDeclaration bound declaration') := by
  refine (Like.expect _ _).bind fun _ _ hname => (Like.expect _ _).bind fun _ _ _ => ?_
  refine (Like.items parameter_like bound).bind fun _ _ hparams => ?_
  refine (Like.expect _ _).bind fun _ _ _ => (Like.expect _ _).bind fun _ _ _ => ?_
  exact (block_like bound h).withinFunction.bind fun _ _ hbody =>
    .pure (.function hname hparams hbody)

/-- One step of the induction for statements: the first words are of the same kind. -/
theorem statementOf_like (bound : Nat) (hstatement : statement.Like L (Stmt.Like L) statement')
    (hdeclaration : declaration.Like L (Option.Rel (Stmt.Like L)) declaration') :
    (statementOf bound statement declaration).Like L (Stmt.Like L)
      (statementOf bound statement' declaration') := by
  have hexpression : (Parser.expression bound).Like L (Expr.Like L) (Parser.expression bound) :=
    expression_like bound
  refine (Like.accept _).bind fun o o' ho => ?_
  cases ho with
  | none => exact expressionStatement_like hexpression
  | some ht =>
    simp only [L.kind ht]
    split
    · exact ifStatement_like hexpression hstatement
    · exact forStatement_like hexpression hstatement
    · exact whileStatement_like hexpression hstatement
    · exact printStatement_like hexpression
    · exact returnStatement_like hexpression ht
    · exact (block_like bound hdeclaration).map fun _ _ hbody => .block hbody

/-- One step of the induction for declarations. One is abandoned where the other one is. -/
theorem declarationOf_like (bound : Nat) (hstatement : statement.Like L (Stmt.Like L) statement')
    (hdeclaration : declaration.Like L (Option.Rel (Stmt.Like L)) declaration') :
    (declarationOf bound statement declaration).Like L (Option.Rel (Stmt.Like L))
      (declarationOf bound statement' declaration') := by
  refine Like.recovering ((Like.accept _).bind fun o o' ho => ?_)
  cases ho with
  | none => exact statementOf_like bound hstatement hdeclaration
  | some ht =>
    simp only [L.kind ht]
    split
    · exact funDeclaration_like bound hdeclaration
    · exact varDeclaration_like (expression_like bound)

end

theorem statement_like (bound : Nat) :
    (statement bound).Like L (Stmt.Like L) (statement bound) ∧
      (declaration bound).Like L (Option.Rel (Stmt.Like L)) (declaration bound) := by
  induction bound with
  | zero => exact ⟨.unexpected _, .recovering (.unexpected _)⟩
  | succ bound ih => exact ⟨statementOf_like _ ih.1 ih.2, declarationOf_like _ ih.1 ih.2⟩

/-- Whole programs, with all the errors that are noted on the way. -/
theorem program_like (bound : Nat) :
    (program bound).Like L (List.Forall₂ (Stmt.Like L)) (program bound) := by
  have hnext : (program.next bound).Like L (Option.Rel (Option.Rel (Stmt.Like L)))
      (program.next bound) := by
    refine Like.atEnd.bind fun done done' hdone => ?_
    subst hdone
    split
    · exact .pure .none
    · exact present_like (statement_like bound).2
  exact (Like.many hnext bound).bind fun _ _ hfound => .pure (filterMap_like hfound)

/-- The tokens up to the first end of the input are alike, and so is that end. Without one, both
assume the same end. -/
theorem start_like {ts us : List Token} (h : List.Forall₂ L.Like ts us) :
    (State.start ts).Like L (State.start us) := by
  refine ⟨?_, ?_, rfl⟩
  -- The tokens before the end.
  · simp only [State.start]
    induction h with
    | nil => exact .nil
    | cons ht _ ih =>
      simp only [List.takeWhile_cons, L.kind ht]
      split
      · exact .cons ht ih
      · exact .nil
  · simp only [State.start]
    induction h with
    | nil => exact L.refl _
    | cons ht _ ih =>
      simp only [List.find?_cons, L.kind ht]
      split
      · exact ht
      · exact ih

end Parser

/-- The statements and the errors of programs that are alike. -/
theorem parse_like {ts us : List Token} (h : List.Forall₂ L.Like ts us) :
    List.Forall₂ (Stmt.Like L) (parse ts).statements (parse us).statements ∧
      List.Forall₂ (SyntaxError.Like L) (parse ts).errors (parse us).errors := by
  have hstart := Parser.start_like h
  have hreply := Parser.program_like (Parser.State.start ts).rest.length _ _ hstart
  simp only [parse_eq, Parser.Reply.program, ← hstart.rest.length_eq]
  refine ⟨?_, hreply.errors⟩
  obtain ⟨ss, ss', hss, hss', hlike⟩ | ⟨e, e', he, he', -⟩ := resultRel_cases hreply.result
  · rw [hss, hss']
    exact hlike
  · rw [he, he']
    exact .nil

end Treewalk
