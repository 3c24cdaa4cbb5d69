import Treewalk.Proofs.Machine.Growth
import Treewalk.Proofs.Parsing.Cursors
import Treewalk.Proofs.Policy

/-!
# What parsers return

Whatever tokens a parser reads, however malformed, the trees that it returns are made of tokens that
it has read, each in a place for tokens of its kind: an operator of a kind that its place allows, a
name that is an identifier, a call that ends with a closing parenthesis. And what is read as a
statement, rather than as a declaration, declares nothing in the scope in which it stands.

`Parser.Gives` carries this through the combinators, as `Parser.Yields` does for tokens without
errors.
-/

namespace Treewalk

namespace Operator

/-- The kinds of the tokens that are unary operators. -/
def unaryKinds : List TokenKind := [.bang, .minus]

/-- The kinds of the tokens that are operators between two operands, both of which are evaluated. -/
def binaryKinds : List TokenKind :=
  [.bangEqual, .equalEqual, .greater, .greaterEqual, .less, .lessEqual, .minus, .plus, .slash,
    .star]

/-- The kinds of the tokens that are operators whose right operand need not be evaluated. -/
def logicalKinds : List TokenKind := [.orWord, .andWord]

end Operator

/-- What is asked of the tokens in a tree that was read from tokens that satisfy `Q`. -/
def Policy.read (Q : Token → Prop) : Policy where
  name t := t.kind = .identifier ∧ Q t
  unary t := t.kind ∈ Operator.unaryKinds ∧ Q t
  binary t := t.kind ∈ Operator.binaryKinds ∧ Q t
  logical t := t.kind ∈ Operator.logicalKinds ∧ Q t
  paren t := t.kind = .rightParen ∧ Q t
  params ps := ∀ p ∈ ps, p.kind = .identifier ∧ Q p

namespace Parser

section
variable {σ ε : Type} [Reader σ ε] [View σ]

/-- In front of tokens that satisfy `Q`, what the parser returns satisfies `R`, and the tokens that
it leaves still satisfy `Q`. -/
def Gives (Q : Token → Prop) {α : Type} (R : α → Prop) (p : Parser σ ε α) : Prop :=
  ∀ s : σ, (∀ t ∈ (view s).rest, Q t) →
    (∀ t ∈ (view (p s).state).rest, Q t) ∧ ∀ a, (p s).result = .ok a → R a

namespace Gives

variable {Q : Token → Prop} {α β : Type} {R R' : α → Prop} {S : β → Prop} {p : Parser σ ε α}
  {f : α → Parser σ ε β}

theorem any (p : Parser σ ε α) : p.Gives (fun _ => True) fun _ => True :=
  fun _ _ => ⟨fun _ _ => trivial, fun _ _ => trivial⟩

theorem mono (h : p.Gives Q R) (hR : ∀ a, R a → R' a) : p.Gives Q R' := by
  intro s hs
  exact ⟨(h s hs).1, fun a ha => hR a ((h s hs).2 a ha)⟩

theorem pure {a : α} (h : R a) : (pure a : Parser σ ε α).Gives Q R := by
  intro s hs
  refine ⟨hs, fun b hb => ?_⟩
  cases hb
  exact h

/-- What the first parser returns satisfies `R`, and only for such results something is asked of the
second one. -/
theorem bind (hp : p.Gives Q R) (hf : ∀ a, R a → (f a).Gives Q S) : (p >>= f).Gives Q S := by
  intro s hs
  obtain ⟨hrest, hresult⟩ := hp s hs
  cases hr : (p s).result with
  | error e =>
    rw [bind_error hr]
    exact ⟨hrest, fun b hb => by cases hb⟩
  | ok a =>
    rw [bind_ok hr]
    exact hf a (hresult a hr) (p s).state hrest

theorem map {g : α → β} (hp : p.Gives Q fun a => S (g a)) : (g <$> p).Gives Q S :=
  hp.bind fun _ ha => .pure ha

theorem unexpected (message : String) : (unexpected message : Parser σ ε α).Gives Q R := by
  intro s hs
  exact ⟨hs, fun a ha => by cases ha⟩

theorem report (e : SyntaxError) : (report e : Parser σ ε Unit).Gives Q fun _ => True := by
  intro s hs
  exact ⟨hs, fun _ _ => trivial⟩

theorem check (kind : TokenKind) : (check kind : Parser σ ε Bool).Gives Q fun _ => True := by
  intro s hs
  exact ⟨hs, fun _ _ => trivial⟩

theorem atEnd : (Parser.atEnd : Parser σ ε Bool).Gives Q fun _ => True := by
  intro s hs
  exact ⟨hs, fun _ _ => trivial⟩

theorem inFunction : (Parser.inFunction : Parser σ ε Bool).Gives Q fun _ => True := by
  intro s hs
  exact ⟨hs, fun _ _ => trivial⟩

/-- A bound that is used up leaves everything as it is. -/
theorem exhausted (hp : p.Gives Q R) : (exhausted p).Gives Q R := by
  unfold Parser.exhausted
  split
  · exact hp
  · exact fun s hs => ⟨hs, fun a ha => by cases ha⟩

/-- The next token is one of the tokens to read, unless it is the end of the input. -/
theorem peek : (Parser.peek : Parser σ ε Token).Gives Q fun t => t.kind = .eof ∨ Q t := by
  intro s hs
  refine ⟨hs, fun t ht => ?_⟩
  obtain rfl : Reader.current s = t := Except.ok.inj ht
  rw [View.current_eq]
  cases hrest : (view s).rest with
  | nil =>
    refine .inl ?_
    rw [State.current, hrest]
    exact (view s).stop_kind
  | cons t rest =>
    refine .inr ?_
    rw [State.current, hrest]
    exact hs t (hrest ▸ List.mem_cons_self)

/-- A token that was taken is of one of the kinds, and is one of those that were left. -/
theorem accept (kinds : List TokenKind) :
    (accept kinds : Parser σ ε (Option Token)).Gives Q fun o => ∀ t ∈ o, t.kind ∈ kinds ∧ Q t := by
  intro s hs
  -- What a reader takes is what its list loses, so that the cases are those of lists.
  obtain ⟨hresult, hview, -⟩ := (Agree.accept kinds).shows s (Nat.le_refl _)
  rw [hview, hresult]
  cases hrest : (view s).rest with
  | nil =>
    rw [accept_nil hrest]
    exact ⟨hs, fun o ho => by cases ho; simp⟩
  | cons t rest =>
    by_cases hmem : t.kind ∈ kinds
    · rw [accept_of_mem hrest hmem]
      rw [hrest] at hs
      refine ⟨fun u hu => hs u (List.mem_cons_of_mem _ hu), fun o ho => ?_⟩
      cases ho
      simpa [hmem] using hs t List.mem_cons_self
    · rw [accept_of_not_mem hrest hmem]
      exact ⟨hs, fun o ho => by cases ho; simp⟩

theorem expect (kind : TokenKind) (message : String) :
    (expect kind message : Parser σ ε Token).Gives Q fun t => t.kind = kind ∧ Q t := by
  refine (accept [kind]).bind fun o ho => ?_
  cases o with
  | none => exact unexpected message
  | some t => exact .pure (by simpa using ho t rfl)

/-- The mark concerns neither the tokens left nor the result. -/
theorem withinFunction (hp : p.Gives Q R) : (withinFunction p).Gives Q R := by
  intro s hs
  obtain ⟨hrest, hresult⟩ := hp (Reader.within s true) (by rw [View.within_eq]; exact hs)
  refine ⟨?_, hresult⟩
  rw [Parser.withinFunction, View.within_eq]
  exact hrest

/-- Recovery passes over tokens, and the others are left. -/
theorem recovering (hp : p.Gives Q R) : (recovering p).Gives Q fun o => ∀ a ∈ o, R a := by
  intro s hs
  obtain ⟨hrest, hresult⟩ := hp s hs
  cases hr : (p s).result with
  | ok a =>
    rw [recovering_ok hr]
    refine ⟨hrest, fun o ho => ?_⟩
    cases ho
    simpa using hresult a hr
  | error e =>
    cases hu : Reader.refused? σ e with
    | none =>
      rw [recovering_halted hr hu]
      exact ⟨hrest, fun o ho => by cases ho⟩
    | some u =>
      rw [recovering_refused hr hu, View.synchronize_eq]
      obtain ⟨ts, hts⟩ := Built.exists_synchronize (view (p s).state).rest
      refine ⟨fun t ht => hrest t ?_, fun o ho => by cases ho; simp⟩
      rw [hts]
      exact List.mem_append_right ts ht

/-- If each round gives what satisfies `R`, so does the list of them all. -/
theorem many {p : Parser σ ε (Option α)} (hp : p.Gives Q fun o => ∀ a ∈ o, R a) (bound : Nat) :
    (many p bound).Gives Q fun as => ∀ a ∈ as, R a := by
  induction bound with
  | zero => exact .exhausted (.pure (by simp))
  | succ bound ih =>
    refine hp.bind fun o ho => ?_
    cases o with
    | none => exact .pure (by simp)
    | some a => exact ih.bind fun rest hrest => .pure (by simpa using ⟨ho a rfl, hrest⟩)

/-- The items in front of the list are part of its result, so that they are asked to satisfy `R` as
well. -/
theorem commaList {item : List α → Parser σ ε α} (hitem : ∀ before, (item before).Gives Q R)
    (bound : Nat) {before : List α} (hbefore : ∀ a ∈ before, R a) :
    (commaList item bound before).Gives Q fun as => ∀ a ∈ as, R a := by
  have hsnoc : ∀ {before : List α} {a : α}, (∀ b ∈ before, R b) → R a →
      ∀ b ∈ before ++ [a], R b := by
    intro before a hbefore ha b hb
    obtain hb | hb := List.mem_append.1 hb
    · exact hbefore b hb
    · exact List.mem_singleton.1 hb ▸ ha
  induction bound generalizing before with
  | zero => exact .exhausted ((hitem before).bind fun a ha => .pure (hsnoc hbefore ha))
  | succ bound ih =>
    refine (hitem before).bind fun a ha => (accept [.comma]).bind fun o _ => ?_
    cases o with
    | none => exact .pure (hsnoc hbefore ha)
    | some comma => exact ih (hsnoc hbefore ha)

theorem items {item : List α → Parser σ ε α} (hitem : ∀ before, (item before).Gives Q R)
    (bound : Nat) : (items bound item).Gives Q fun as => ∀ a ∈ as, R a := by
  refine (check .rightParen).bind fun b _ => ?_
  split
  · exact .pure (by simp)
  · exact commaList hitem bound (by simp)

end Gives

/-! ## Expressions -/

section
variable {Q : Token → Prop} {inner : Parser σ ε Expr}

/-- A name is an identifier, because its kind is what made it a name. -/
theorem primary_gives (hinner : inner.Gives Q (Expr.Obeys (.read Q))) :
    (primary inner).Gives Q (Expr.Obeys (.read Q)) := by
  refine Gives.peek.bind fun t ht => ?_
  -- A literal is no token of the tree; only a name is kept as the token that was read.
  have hliteral : ∀ value, (primary.literalToken t value : Parser σ ε Expr).Gives Q
      (Expr.Obeys (.read Q)) := fun value => (Gives.accept _).bind fun _ _ => .pure trivial
  split
  case h_6 hkind =>
    refine (Gives.accept _).bind fun _ _ => .pure ?_
    -- An identifier is not the end of the input, so that it is one of the tokens left.
    exact ⟨hkind, ht.resolve_left (by simp [hkind])⟩
  case h_7 =>
    refine (Gives.accept _).bind fun _ _ => hinner.bind fun e he => ?_
    exact (Gives.expect _ _).bind fun _ _ => .pure he
  case h_8 => exact .unexpected _
  all_goals exact hliteral _

theorem argument_gives (hinner : inner.Gives Q (Expr.Obeys (.read Q))) (before : List Expr) :
    (argument inner before).Gives Q (Expr.Obeys (.read Q)) := by
  unfold argument
  split
  · exact Gives.peek.bind fun t _ => (Gives.report _).bind fun _ _ => hinner
  · exact hinner

/-- The closing parenthesis of a call is kept in the tree, and is one. -/
theorem arguments_gives (bound : Nat) (hinner : inner.Gives Q (Expr.Obeys (.read Q))) :
    (arguments bound inner).Gives Q fun o =>
      ∀ call ∈ o, Expr.ObeysAll (.read Q) call.1 ∧ (Policy.read Q).paren call.2 := by
  refine (Gives.accept _).bind fun o _ => ?_
  cases o with
  | none => exact .pure (by simp)
  | some left =>
    refine (Gives.items (argument_gives hinner) bound).bind fun args hargs => ?_
    refine (Gives.expect _ _).bind fun paren hparen => .pure ?_
    intro call hcall
    cases hcall
    exact ⟨Expr.obeysAll_iff.2 hargs, hparen⟩

/-- Calls of calls: the induction is on the parentheses behind the callee, each of which makes it
the callee of the next. -/
theorem call_gives (bound : Nat) (hinner : inner.Gives Q (Expr.Obeys (.read Q))) :
    (call bound inner).Gives Q (Expr.Obeys (.read Q)) := by
  refine (primary_gives hinner).bind fun callee hcallee => ?_
  refine (Gives.many (arguments_gives bound hinner) bound).bind fun calls hcalls => .pure ?_
  induction calls generalizing callee with
  | nil => exact hcallee
  | cons call calls ih =>
    obtain ⟨hargs, hparen⟩ := hcalls call List.mem_cons_self
    refine ih (.call callee call.2 call.1) ⟨hcallee, hparen, hargs⟩ fun call' hcall' => ?_
    exact hcalls call' (List.mem_cons_of_mem _ hcall')

/-- The operators that were read in front are of the kinds allowed there. -/
theorem unary_gives (bound : Nat) (hinner : inner.Gives Q (Expr.Obeys (.read Q))) :
    (unary bound inner).Gives Q (Expr.Obeys (.read Q)) := by
  refine (Gives.many (Gives.accept _) bound).bind fun ops hops => ?_
  refine (call_gives bound hinner).bind fun operand hoperand => .pure ?_
  induction ops with
  | nil => exact hoperand
  | cons op ops ih =>
    exact ⟨hops op List.mem_cons_self, ih fun op' hop' => hops op' (List.mem_cons_of_mem _ hop')⟩

/-- A level makes either logical or binary expressions, and its operators are of their kinds. -/
theorem ladder_node {level : Level} (hlevel : level ∈ Level.ladder) :
    (level.node = .logical ∧ ∀ k ∈ level.operators, k ∈ Operator.logicalKinds) ∨
      (level.node = .binary ∧ ∀ k ∈ level.operators, k ∈ Operator.binaryKinds) := by
  simp only [Level.ladder, List.mem_cons, List.not_mem_nil, or_false] at hlevel
  rcases hlevel with rfl | rfl | rfl | rfl | rfl | rfl
  · exact .inl ⟨rfl, by decide⟩
  · exact .inl ⟨rfl, by decide⟩
  all_goals exact .inr ⟨rfl, by decide⟩

/-- A node on a level of precedence takes operators of that level, which are those that its form
allows. -/
theorem node_obeys {level : Level} (hlevel : level ∈ Level.ladder) {l r : Expr} {op : Token}
    (hl : l.Obeys (.read Q)) (hop : op.kind ∈ level.operators ∧ Q op) (hr : r.Obeys (.read Q)) :
    (level.node l op r).Obeys (.read Q) := by
  rcases ladder_node hlevel with ⟨hnode, hkinds⟩ | ⟨hnode, hkinds⟩
  · rw [hnode]
    exact ⟨hl, ⟨hkinds _ hop.1, hop.2⟩, hr⟩
  · rw [hnode]
    exact ⟨hl, ⟨hkinds _ hop.1, hop.2⟩, hr⟩

/-- One level of precedence, which groups its operators from left to right. -/
theorem level_gives {level : Level} (hlevel : level ∈ Level.ladder) (bound : Nat)
    {operand : Parser σ ε Expr} (hoperand : operand.Gives Q (Expr.Obeys (.read Q))) :
    (level.expression bound operand).Gives Q (Expr.Obeys (.read Q)) := by
  have hoperation : (operation level.operators operand).Gives Q fun o =>
      ∀ x ∈ o, (x.1.kind ∈ level.operators ∧ Q x.1) ∧ x.2.Obeys (.read Q) := by
    refine (Gives.accept _).bind fun o ho => ?_
    cases o with
    | none => exact .pure (by simp)
    | some op =>
      refine hoperand.bind fun rhs hrhs => .pure ?_
      intro x hx
      cases hx
      exact ⟨ho op rfl, hrhs⟩
  refine hoperand.bind fun first hfirst => ?_
  refine (Gives.many hoperation bound).bind fun rest hrest => .pure ?_
  -- Each operator makes what stands on its left into its left operand.
  induction rest generalizing first with
  | nil => exact hfirst
  | cons x rest ih =>
    obtain ⟨hop, hrhs⟩ := hrest x List.mem_cons_self
    refine ih (level.node first x.1 x.2) (node_obeys hlevel hfirst hop hrhs) fun x' hx' => ?_
    exact hrest x' (List.mem_cons_of_mem _ hx')

theorem levels_gives (bound : Nat) (hinner : inner.Gives Q (Expr.Obeys (.read Q)))
    {levels : List Level} (hlevels : levels ⊆ Level.ladder) :
    (levels.foldr (fun level operand => level.expression bound operand)
      (unary bound inner)).Gives Q (Expr.Obeys (.read Q)) := by
  induction levels with
  | nil => exact unary_gives bound hinner
  | cons level levels ih =>
    obtain ⟨hlevel, hlevels⟩ := List.cons_subset.1 hlevels
    exact level_gives hlevel bound (ih hlevels)

/-- An assignment without a target is reported, and the target alone is returned. -/
theorem assignment_gives (bound : Nat) (hinner : inner.Gives Q (Expr.Obeys (.read Q))) :
    (assignment bound inner).Gives Q (Expr.Obeys (.read Q)) := by
  refine (levels_gives bound hinner (List.Subset.refl _)).bind fun target htarget => ?_
  refine (Gives.accept _).bind fun o _ => ?_
  cases o with
  | none => exact .pure htarget
  | some equals =>
    refine hinner.bind fun value hvalue => ?_
    split
    · exact .pure ⟨htarget, hvalue⟩
    · exact (Gives.report _).bind fun _ _ => .pure htarget

end

/-- What is read as an expression is made of tokens that were read, each in its place, however
malformed the tokens are. -/
theorem expression_gives (Q : Token → Prop) (bound : Nat) :
    (expression bound : Parser σ ε Expr).Gives Q (Expr.Obeys (.read Q)) := by
  induction bound with
  | zero => exact .exhausted (.unexpected _)
  | succ bound ih => exact assignment_gives (bound + 1) ih

/-! ## Statements -/

/-- The statement obeys the policy of what is read, and declares nothing where it stands. -/
def ReadsPlain (Q : Token → Prop) (s : Stmt) : Prop :=
  s.Obeys (.read Q) ∧ s.declared = []

section
variable {Q : Token → Prop} {expression : Parser σ ε Expr} {statement : Parser σ ε Stmt}
  {declaration : Parser σ ε (Option Stmt)}

theorem expressionStatement_gives (h : expression.Gives Q (Expr.Obeys (.read Q))) :
    (expressionStatement expression).Gives Q (ReadsPlain Q) :=
  h.bind fun _ he => (Gives.expect _ _).bind fun _ _ => .pure ⟨he, rfl⟩

theorem printStatement_gives (h : expression.Gives Q (Expr.Obeys (.read Q))) :
    (printStatement expression).Gives Q (ReadsPlain Q) :=
  h.bind fun _ he => (Gives.expect _ _).bind fun _ _ => .pure ⟨he, rfl⟩

theorem present_gives (h : expression.Gives Q (Expr.Obeys (.read Q))) :
    (some <$> expression).Gives Q (Expr.ObeysOption (.read Q)) :=
  .map (h.mono fun e he e' he' => by cases he'; exact he)

/-- A variable is named by an identifier. -/
theorem varDeclaration_gives (h : expression.Gives Q (Expr.Obeys (.read Q))) :
    (varDeclaration expression).Gives Q (Stmt.Obeys (.read Q)) := by
  refine (Gives.expect _ _).bind fun name hname => (Gives.accept _).bind fun o _ => ?_
  cases o with
  | none =>
    refine Gives.bind (R := Expr.ObeysOption (.read Q)) (.pure (by simp [Expr.ObeysOption])) ?_
    exact fun e he => (Gives.expect _ _).bind fun _ _ => .pure ⟨hname, he⟩
  | some equals =>
    refine (present_gives h).bind ?_
    exact fun e he => (Gives.expect _ _).bind fun _ _ => .pure ⟨hname, he⟩

theorem clause_gives (stop : TokenKind) (h : expression.Gives Q (Expr.Obeys (.read Q))) :
    (clause stop expression).Gives Q (Expr.ObeysOption (.read Q)) := by
  refine (Gives.check stop).bind fun b _ => ?_
  split
  · exact .pure (by simp [Expr.ObeysOption])
  · exact present_gives h

theorem returnStatement_gives (h : expression.Gives Q (Expr.Obeys (.read Q))) (keyword : Token) :
    (returnStatement expression keyword).Gives Q (ReadsPlain Q) := by
  have hrest : (do
      let value ← clause .semicolon expression
      let _ ← expect .semicolon "Expect ';' after return value."
      pure (.ret keyword value) : Parser σ ε Stmt).Gives Q (ReadsPlain Q) :=
    (clause_gives _ h).bind fun _ hvalue => (Gives.expect _ _).bind fun _ _ => .pure ⟨hvalue, rfl⟩
  refine Gives.inFunction.bind fun fn _ => ?_
  split
  · exact (Gives.report _).bind fun _ _ => hrest
  · exact hrest

/-- Both branches are statements, so that the whole declares nothing. -/
theorem ifStatement_gives (h : expression.Gives Q (Expr.Obeys (.read Q)))
    (hstatement : statement.Gives Q (ReadsPlain Q)) :
    (ifStatement expression statement).Gives Q (ReadsPlain Q) := by
  refine (Gives.expect _ _).bind fun _ _ => h.bind fun cond hcond => ?_
  refine (Gives.expect _ _).bind fun _ _ => hstatement.bind fun s hs => ?_
  refine (Gives.accept _).bind fun o _ => ?_
  cases o with
  | none => exact .pure ⟨⟨hcond, hs.1⟩, hs.2⟩
  | some other =>
    refine Gives.bind (R := fun o => ∃ s', o = some s' ∧ ReadsPlain Q s')
      (.map (hstatement.mono fun s' hs' => ⟨s', rfl, hs'⟩)) ?_
    rintro _ ⟨s', rfl, hs'⟩
    exact .pure ⟨⟨hcond, hs.1, hs'.1⟩, by rw [Stmt.declared, hs.2, hs'.2]; rfl⟩

theorem whileStatement_gives (h : expression.Gives Q (Expr.Obeys (.read Q)))
    (hstatement : statement.Gives Q (ReadsPlain Q)) :
    (whileStatement expression statement).Gives Q (ReadsPlain Q) := by
  refine (Gives.expect _ _).bind fun _ _ => h.bind fun cond hcond => ?_
  refine (Gives.expect _ _).bind fun _ _ => hstatement.bind fun s hs => .pure ?_
  exact ⟨⟨hcond, hs.1⟩, hs.2⟩

/-- The first clause of a for statement may declare a variable, so that nothing is said here of what
it declares. -/
theorem initializer_gives (h : expression.Gives Q (Expr.Obeys (.read Q))) :
    (initializer expression).Gives Q fun o => ∀ s ∈ o, s.Obeys (.read Q) := by
  have hsome : ∀ {p : Parser σ ε Stmt}, p.Gives Q (Stmt.Obeys (.read Q)) →
      (some <$> p).Gives Q fun o => ∀ s ∈ o, s.Obeys (.read Q) := fun hp =>
    .map (hp.mono fun s hs s' hs' => by cases hs'; exact hs)
  refine (Gives.accept _).bind fun o _ => ?_
  cases o with
  | none => exact hsome ((expressionStatement_gives h).mono fun _ hs => hs.1)
  | some t =>
    dsimp only
    split
    · exact .pure (by simp)
    · exact hsome (varDeclaration_gives h)

/-- A loop with three clauses declares nothing where it stands: its initializer belongs to the block
around it. -/
theorem forLoop_readsPlain {first : Option Stmt} {cond increment : Option Expr} {body : Stmt}
    (hfirst : ∀ s ∈ first, s.Obeys (.read Q)) (hcond : Expr.ObeysOption (.read Q) cond)
    (hincrement : Expr.ObeysOption (.read Q) increment) (hbody : ReadsPlain Q body) :
    ReadsPlain Q (.forLoop first cond increment body) := by
  have hcond' : (cond.getD (.literal (.bool true))).Obeys (.read Q) := by
    cases cond with
    | none => exact trivial
    | some e => exact hcond e rfl
  obtain ⟨hobeys, hplain⟩ := hbody
  cases first <;> cases increment <;>
    simp_all [ReadsPlain, Stmt.forLoop, Stmt.Obeys, Stmt.ObeysAll, Stmt.declared, Expr.ObeysOption]

theorem forStatement_gives (h : expression.Gives Q (Expr.Obeys (.read Q)))
    (hstatement : statement.Gives Q (ReadsPlain Q)) :
    (forStatement expression statement).Gives Q (ReadsPlain Q) := by
  refine (Gives.expect _ _).bind fun _ _ => (initializer_gives h).bind fun first hfirst => ?_
  refine (clause_gives _ h).bind fun cond hcond => (Gives.expect _ _).bind fun _ _ => ?_
  refine (clause_gives _ h).bind fun increment hincrement => (Gives.expect _ _).bind fun _ _ => ?_
  refine hstatement.bind fun body hbody => .pure ?_
  exact forLoop_readsPlain hfirst hcond hincrement hbody

/-- Statements that were found, where those that were abandoned are left out. -/
theorem filterMap_obeys {found : List (Option Stmt)}
    (h : ∀ o ∈ found, ∀ s ∈ o, s.Obeys (.read Q)) :
    Stmt.ObeysAll (.read Q) (found.filterMap id) := by
  refine Stmt.obeysAll_iff.2 fun s hs => ?_
  obtain ⟨o, ho, hos⟩ := List.mem_filterMap.1 hs
  exact h o ho s hos

theorem next_gives {p : Parser σ ε (Option Stmt)}
    (h : p.Gives Q fun o => ∀ s ∈ o, s.Obeys (.read Q)) :
    (some <$> p).Gives Q fun o => ∀ found ∈ o, ∀ s ∈ found, s.Obeys (.read Q) :=
  .map (h.mono fun o ho found hfound => by cases hfound; exact ho)

/-- A block keeps the declarations that were not given up. -/
theorem block_gives (bound : Nat)
    (h : declaration.Gives Q fun o => ∀ s ∈ o, s.Obeys (.read Q)) :
    (block bound declaration).Gives Q (Stmt.ObeysAll (.read Q)) := by
  have hnext : (declarations.next declaration).Gives Q fun o =>
      ∀ found ∈ o, ∀ s ∈ found, s.Obeys (.read Q) := by
    refine Gives.atEnd.bind fun done _ => (Gives.check _).bind fun stop _ => ?_
    split
    · exact .pure (by simp)
    · exact next_gives h
  refine Gives.bind (R := Stmt.ObeysAll (.read Q)) ?_ fun body hbody =>
    (Gives.expect _ _).bind fun _ _ => .pure hbody
  exact (Gives.many hnext bound).bind fun found hfound => .pure (filterMap_obeys hfound)

/-- A parameter is returned even if it is reported, and is an identifier in any case. -/
theorem parameter_gives (before : List Token) :
    (parameter before : Parser σ ε Token).Gives Q fun p => p.kind = .identifier ∧ Q p := by
  have hrest : (do
      let name ← expect .identifier "Expect parameter name."
      if before.any fun p => p.lexeme == name.lexeme then
        report (.duplicateParameter name)
      pure name : Parser σ ε Token).Gives Q fun p => p.kind = .identifier ∧ Q p := by
    refine (Gives.expect _ _).bind fun name hname => ?_
    split
    · exact (Gives.report _).bind fun _ _ => .pure hname
    · exact .pure hname
  unfold parameter
  split
  · exact Gives.peek.bind fun _ _ => (Gives.report _).bind fun _ _ => hrest
  · exact hrest

/-- A function is named by an identifier, as its parameters are. -/
theorem funDeclaration_gives (bound : Nat)
    (h : declaration.Gives Q fun o => ∀ s ∈ o, s.Obeys (.read Q)) :
    (funDeclaration bound declaration).Gives Q (Stmt.Obeys (.read Q)) := by
  refine (Gives.expect _ _).bind fun name hname => (Gives.expect _ _).bind fun _ _ => ?_
  refine (Gives.items parameter_gives bound).bind fun params hparams => ?_
  refine (Gives.expect _ _).bind fun _ _ => (Gives.expect _ _).bind fun _ _ => ?_
  exact (block_gives bound h).withinFunction.bind fun body hbody => .pure ⟨hname, hparams, hbody⟩

/-- One step of the induction for statements. A block declares nothing outside, whatever it declares
inside. -/
theorem statementOf_gives (bound : Nat) (hstatement : statement.Gives Q (ReadsPlain Q))
    (hdeclaration : declaration.Gives Q fun o => ∀ s ∈ o, s.Obeys (.read Q)) :
    (statementOf bound statement declaration).Gives Q (ReadsPlain Q) := by
  have hexpression : (Parser.expression bound : Parser σ ε Expr).Gives Q _ :=
    expression_gives Q bound
  refine (Gives.accept _).bind fun o _ => ?_
  cases o with
  | none => exact expressionStatement_gives hexpression
  | some t =>
    dsimp only
    split
    · exact ifStatement_gives hexpression hstatement
    · exact forStatement_gives hexpression hstatement
    · exact whileStatement_gives hexpression hstatement
    · exact printStatement_gives hexpression
    · exact returnStatement_gives hexpression t
    · exact .map ((block_gives bound hdeclaration).mono fun body hbody => ⟨hbody, rfl⟩)

/-- One step of the induction for declarations, which may have no result at all. -/
theorem declarationOf_gives (bound : Nat) (hstatement : statement.Gives Q (ReadsPlain Q))
    (hdeclaration : declaration.Gives Q fun o => ∀ s ∈ o, s.Obeys (.read Q)) :
    (declarationOf bound statement declaration).Gives Q fun o =>
      ∀ s ∈ o, s.Obeys (.read Q) := by
  refine Gives.recovering ((Gives.accept _).bind fun o _ => ?_)
  cases o with
  | none => exact (statementOf_gives bound hstatement hdeclaration).mono fun _ hs => hs.1
  | some t =>
    dsimp only
    split
    · exact funDeclaration_gives bound hdeclaration
    · exact varDeclaration_gives (expression_gives Q bound)

end

/-- Statements and declarations, by induction on how deep they are nested. -/
theorem statement_gives (Q : Token → Prop) (bound : Nat) :
    (statement bound : Parser σ ε Stmt).Gives Q (ReadsPlain Q) ∧
      (declaration bound : Parser σ ε (Option Stmt)).Gives Q
        fun o => ∀ s ∈ o, s.Obeys (.read Q) := by
  induction bound with
  | zero => exact ⟨.exhausted (.unexpected _), .exhausted (.recovering (.unexpected _))⟩
  | succ bound ih => exact ⟨statementOf_gives _ ih.1 ih.2, declarationOf_gives _ ih.1 ih.2⟩

/-- What is returned of a program, be it well-formed or not. -/
theorem program_gives (Q : Token → Prop) (bound : Nat) :
    (program bound : Parser σ ε (List Stmt)).Gives Q (Stmt.ObeysAll (.read Q)) := by
  have hnext : (program.next bound : Parser σ ε (Option (Option Stmt))).Gives Q fun o =>
      ∀ found ∈ o, ∀ s ∈ found, s.Obeys (.read Q) := by
    refine Gives.atEnd.bind fun done _ => ?_
    split
    · exact .pure (by simp)
    · exact next_gives (statement_gives Q bound).2
  exact (Gives.many hnext bound).bind fun found hfound => .pure (filterMap_obeys hfound)

end

end Parser

/-- The statements that a parser returns, with errors or without, are made of tokens that it was
given, each in a place for its kind. -/
theorem parse_obeys {Q : Token → Prop} {tokens : List Token} (h : ∀ t ∈ tokens, Q t) :
    Stmt.ObeysAll (.read Q) (parse tokens).statements := by
  have hstart : ∀ t ∈ (Parser.State.start tokens).rest, Q t := fun t ht =>
    h t ((List.takeWhile_subset _) ht)
  obtain ⟨found, hfound⟩ := Parser.total_program (Parser.State.start tokens).rest.length
    (Parser.State.start tokens)
  have hgives := (Parser.program_gives Q _ _ hstart).2 found hfound
  simpa [parse_eq, Parser.Reply.program, hfound, Except.toOption] using hgives

end Treewalk
