import Treewalk.Proofs.Parsing.Built

/-!
# Every parser is built from the basic ones

What `Parser.Built` asks for is checked here along the grammar, for every reader. The parsers for
expressions take only tokens of the kinds that expressions are made of; those for statements may
take any token, if only because they recover.
-/

namespace Treewalk.Parser

/-! ## Expressions -/

/-- The kinds of the tokens that expressions are made of. -/
def expressionKinds : List TokenKind :=
  [.falseWord, .trueWord, .nullWord, .number, .string, .identifier, .leftParen, .rightParen, .comma,
    .bang, .minus, .plus, .slash, .star, .greater, .greaterEqual, .less, .lessEqual, .bangEqual,
    .equalEqual, .andWord, .orWord, .equal]

section
variable {σ ε : Type} [Reader σ ε] {inner : Parser σ ε Expr}

/-- A primary expression takes the token that it has looked at, whose kind it has found to be that
of an expression. -/
theorem primary_built {K : TokenKind → Prop} (hK : ∀ k ∈ expressionKinds, K k)
    (hinner : Built K inner) : Built K (primary inner) := by
  refine .bind .peek fun t => ?_
  -- The kind of the token decides what is read, so that it is the kind that is accepted.
  have haccept : t.kind ∈ expressionKinds →
      Built K (accept [t.kind] : Parser σ ε (Option Token)) :=
    fun h => .accept (by simpa using hK _ h)
  split
  case h_8 => exact .unexpected _
  case h_7 =>
    refine .bind (haccept (by simp_all [expressionKinds])) fun _ => .bind hinner fun _ => ?_
    exact .bind (.expect _ (hK _ (by decide))) fun _ => .pure _
  all_goals exact .bind (haccept (by simp_all [expressionKinds])) fun _ => .pure _

theorem argument_built {K : TokenKind → Prop} (hinner : Built K inner) (before : List Expr) :
    Built K (argument inner before) := by
  unfold argument
  split
  · exact .bind .peek fun t => .bind (.report rfl) fun _ => hinner
  · exact hinner

/-- The arguments of a call take parentheses, commas and what their expressions take. -/
theorem arguments_built (bound : Nat) (hinner : Built (· ∈ expressionKinds) inner) :
    Built (· ∈ expressionKinds) (arguments bound inner) := by
  refine .bind (.accept (by decide)) fun o => ?_
  cases o with
  | none => exact .pure _
  | some paren =>
    refine .bind (.items (argument_built hinner) (by decide) bound) fun args => ?_
    exact .bind (.expect _ (by decide)) fun _ => .pure _

theorem call_built (bound : Nat) (hinner : Built (· ∈ expressionKinds) inner) :
    Built (· ∈ expressionKinds) (call bound inner) :=
  .bind (primary_built (fun _ => id) hinner) fun _ =>
    .bind (.many (arguments_built bound hinner) bound) fun _ =>
    .pure _

theorem unary_built (bound : Nat) (hinner : Built (· ∈ expressionKinds) inner) :
    Built (· ∈ expressionKinds) (unary bound inner) :=
  .bind (.many (.accept (by decide)) bound) fun _ => .bind (call_built bound hinner) fun _ =>
    .pure _

/-- An operator and its operand on the right. The kinds of the operators have to be kinds of
expressions. -/
theorem operation_built {kinds : List TokenKind} (hkinds : ∀ k ∈ kinds, k ∈ expressionKinds)
    {operand : Parser σ ε Expr} (h : Built (· ∈ expressionKinds) operand) :
    Built (· ∈ expressionKinds) (operation kinds operand) := by
  refine .bind (.accept hkinds) fun o => ?_
  cases o with
  | none => exact .pure _
  | some op => exact .bind h fun _ => .pure _

/-- The operators on every level of precedence are kinds of expressions. -/
theorem operators_expression : ∀ level ∈ Level.ladder, ∀ k ∈ level.operators,
    k ∈ expressionKinds := by
  decide

/-- The operations of the lower end of the ladder are built from the same tokens as all of it. -/
theorem levels_built (bound : Nat) (hinner : Built (· ∈ expressionKinds) inner)
    {levels : List Level} (hlevels : levels ⊆ Level.ladder) :
    Built (· ∈ expressionKinds)
      (levels.foldr (fun level operand => level.expression bound operand) (unary bound inner)) := by
  induction levels with
  | nil => exact unary_built bound hinner
  | cons level levels ih =>
    obtain ⟨hlevel, hlevels⟩ := List.cons_subset.1 hlevels
    have hoperand := ih hlevels
    have hoperation := operation_built (operators_expression level hlevel) hoperand
    exact .bind hoperand fun _ => .bind (.many hoperation bound) fun _ => .pure _

theorem operations_built (bound : Nat) (hinner : Built (· ∈ expressionKinds) inner) :
    Built (· ∈ expressionKinds) (operations bound inner) :=
  levels_built bound hinner (List.Subset.refl _)

/-- One step of the induction for expressions. An invalid target is reported, not recovered from. -/
theorem assignment_built (bound : Nat) (hinner : Built (· ∈ expressionKinds) inner) :
    Built (· ∈ expressionKinds) (assignment bound inner) := by
  refine .bind (operations_built bound hinner) fun target => .bind (.accept (by decide)) fun o => ?_
  cases o with
  | none => exact .pure _
  | some equals =>
    refine .bind hinner fun value => ?_
    split
    · exact .pure _
    · exact .bind (.report rfl) fun _ => .pure _

/-- The parser for expressions takes only tokens that expressions are made of, however deep it may
go. In particular it never takes a semicolon, a brace or a word that starts a statement. -/
theorem expression_built (bound : Nat) :
    Built (· ∈ expressionKinds) (expression bound : Parser σ ε Expr) := by
  induction bound with
  | zero => exact .exhausted (.unexpected _)
  | succ bound ih => exact assignment_built (bound + 1) ih

end

/-! ## Statements -/

section
variable {σ ε : Type} [Reader σ ε] {E : Parser σ ε Expr} {S : Parser σ ε Stmt}
  {D : Parser σ ε (Option Stmt)}

/-- Statements may take tokens of every kind, so that what their expressions take is no longer of
interest. -/
theorem Built.any {α : Type} {p : Parser σ ε α} {K : TokenKind → Prop} (h : Built K p) :
    Built (fun _ => True) p :=
  h.mono fun _ _ => trivial

theorem expressionStatement_built (hE : Built (fun _ => True) E) :
    Built (fun _ => True) (expressionStatement E) :=
  .bind hE fun _ => .bind (.expect _ trivial) fun _ => .pure _

theorem printStatement_built (hE : Built (fun _ => True) E) :
    Built (fun _ => True) (printStatement E) :=
  .bind hE fun _ => .bind (.expect _ trivial) fun _ => .pure _

/-- The part behind the name is the same with an initial value and without one. -/
theorem varDeclaration_built (hE : Built (fun _ => True) E) :
    Built (fun _ => True) (varDeclaration E) := by
  -- What is read at the end does not depend on whether there was an initial value.
  have hend : ∀ (name : Token) (e : Option Expr), Built (fun _ => True) (do
      let _ ← (expect .semicolon "Expect ';' after variable declaration." : Parser σ ε Token)
      pure (Stmt.var name e)) := fun _ _ => .bind (.expect _ trivial) fun _ => .pure _
  refine .bind (.expect _ trivial) fun name => .bind (.accept fun _ _ => trivial) fun o => ?_
  cases o with
  | none => exact hend name none
  | some equals => exact .bind hE.map (hend name)

/-- A clause that may be missing takes what its expression takes. -/
theorem clause_built {K : TokenKind → Prop} (hE : Built K E) (stop : TokenKind) :
    Built K (clause stop E) := by
  refine .bind (.check stop) fun b => ?_
  cases b with
  | true => exact .pure none
  | false => exact hE.map


/-- A return statement outside a function is reported and then read like any other. -/
theorem returnStatement_built (hE : Built (fun _ => True) E) (keyword : Token) :
    Built (fun _ => True) (returnStatement E keyword) := by
  have hend : Built (fun _ => True) (do
      let value ← clause .semicolon E
      let _ ← expect .semicolon "Expect ';' after return value."
      pure (Stmt.ret keyword value)) :=
    .bind (clause_built hE _) fun _ => .bind (.expect _ trivial) fun _ => .pure _
  refine .bind .inFunction fun b => ?_
  cases b with
  | true => exact hend
  | false => exact .bind (.report rfl) fun _ => hend

theorem ifStatement_built (hE : Built (fun _ => True) E) (hS : Built (fun _ => True) S) :
    Built (fun _ => True) (ifStatement E S) := by
  refine .bind (.expect _ trivial) fun _ => .bind hE fun cond => .bind (.expect _ trivial) fun _ =>
    .bind hS fun thenBranch => .bind (.accept fun _ _ => trivial) fun o => ?_
  cases o with
  | none => exact .pure _
  | some word => exact .bind hS.map fun _ => .pure _

theorem whileStatement_built (hE : Built (fun _ => True) E) (hS : Built (fun _ => True) S) :
    Built (fun _ => True) (whileStatement E S) :=
  .bind (.expect _ trivial) fun _ => .bind hE fun _ => .bind (.expect _ trivial) fun _ =>
    .bind hS fun _ => .pure _

theorem initializer_built (hE : Built (fun _ => True) E) :
    Built (fun _ => True) (initializer E) := by
  refine .bind (.accept fun _ _ => trivial) fun o => ?_
  cases o with
  | none => exact (expressionStatement_built hE).map
  | some t =>
    dsimp only
    split
    · exact .pure none
    · exact (varDeclaration_built hE).map


theorem forStatement_built (hE : Built (fun _ => True) E) (hS : Built (fun _ => True) S) :
    Built (fun _ => True) (forStatement E S) :=
  .bind (.expect _ trivial) fun _ => .bind (initializer_built hE) fun _ =>
    .bind (clause_built hE _) fun _ => .bind (.expect _ trivial) fun _ =>
    .bind (clause_built hE _) fun _ => .bind (.expect _ trivial) fun _ =>
    .bind hS fun _ => .pure _

theorem declarations_next_built (hD : Built (fun _ => True) D) :
    Built (fun _ => True) (declarations.next D) := by
  refine .bind .atEnd fun b => ?_
  cases b with
  | true => exact .pure none
  | false =>
    refine .bind (.check .rightBrace) fun b => ?_
    cases b with
    | true => exact .pure none
    | false => exact hD.map


theorem declarations_built (hD : Built (fun _ => True) D) (bound : Nat) :
    Built (fun _ => True) (declarations bound D) :=
  .bind (.many (declarations_next_built hD) bound) fun _ => .pure _


theorem block_built (hD : Built (fun _ => True) D) (bound : Nat) :
    Built (fun _ => True) (block bound D) :=
  .bind (declarations_built hD bound) fun _ => .bind (.expect _ trivial) fun _ => .pure _

/-- A parameter takes an identifier only, even where it is one too many or has the name of another.
-/
theorem parameter_built {K : TokenKind → Prop} (hK : K .identifier) (before : List Token) :
    Built K (parameter before : Parser σ ε Token) := by
  have hname : Built K (do
      let name ← (expect .identifier "Expect parameter name." : Parser σ ε Token)
      if before.any fun p => p.lexeme == name.lexeme then
        report (.duplicateParameter name)
      pure name) := by
    refine .bind (.expect _ hK) fun name => ?_
    split
    · exact .bind (.report rfl) fun _ => .pure name
    · exact .pure name
  unfold parameter
  split
  · exact .bind .peek fun t => .bind (.report rfl) fun _ => hname
  · exact hname


theorem funDeclaration_built (hD : Built (fun _ => True) D) (bound : Nat) :
    Built (fun _ => True) (funDeclaration bound D) :=
  .bind (.expect _ trivial) fun _ => .bind (.expect _ trivial) fun _ =>
    .bind (.items (parameter_built trivial) trivial bound) fun _ =>
    .bind (.expect _ trivial) fun _ => .bind (.expect _ trivial) fun _ =>
    .bind (.withinFunction (block_built hD bound)) fun _ => .pure _

/-- One step of the induction for statements: each kind of statement is built if the statements,
declarations and expressions inside are. -/
theorem statementOf_built (bound : Nat) (hS : Built (fun _ => True) S)
    (hD : Built (fun _ => True) D) : Built (fun _ => True) (statementOf bound S D) := by
  have hE : Built (fun _ => True) (expression bound : Parser σ ε Expr) :=
    (expression_built bound).any
  refine .bind (.accept fun _ _ => trivial) fun o => ?_
  cases o with
  | none => exact expressionStatement_built hE
  | some t =>
    dsimp only
    split
    · exact ifStatement_built hE hS
    · exact forStatement_built hE hS
    · exact whileStatement_built hE hS
    · exact printStatement_built hE
    · exact returnStatement_built hE t
    · exact (block_built hD bound).map

/-- One step of the induction for declarations. They recover, which is where any token may be passed
over. -/
theorem declarationOf_built (bound : Nat) (hS : Built (fun _ => True) S)
    (hD : Built (fun _ => True) D) : Built (fun _ => True) (declarationOf bound S D) := by
  refine .recovering (fun _ => trivial) (.bind (.accept fun _ _ => trivial) fun o => ?_)
  cases o with
  | none => exact statementOf_built bound hS hD
  | some t =>
    dsimp only
    split
    · exact funDeclaration_built hD bound
    · exact varDeclaration_built (expression_built bound).any

/-- Statements and declarations contain each other, so that both are shown to be built at once. -/
theorem statement_built (bound : Nat) :
    Built (fun _ => True) (statement bound : Parser σ ε Stmt) ∧
      Built (fun _ => True) (declaration bound : Parser σ ε (Option Stmt)) := by
  induction bound with
  -- A bound that is used up ends both without reading anything.
  | zero =>
    rw [statement, declaration]
    exact ⟨.exhausted (.unexpected _),
      .exhausted (.recovering (fun _ => trivial) (.unexpected _))⟩
  | succ bound ih =>
    rw [statement, declaration]
    exact ⟨statementOf_built _ ih.1 ih.2, declarationOf_built _ ih.1 ih.2⟩

theorem program_next_built (bound : Nat) :
    Built (fun _ => True) (program.next bound : Parser σ ε (Option (Option Stmt))) := by
  refine .bind .atEnd fun ended => ?_
  cases ended with
  | true => exact .pure none
  | false => exact (statement_built bound).2.map

theorem program_built (bound : Nat) :
    Built (fun _ => True) (program bound : Parser σ ε (List Stmt)) :=
  .bind (.many (program_next_built bound) bound) fun _ => .pure _

end

end Treewalk.Parser
