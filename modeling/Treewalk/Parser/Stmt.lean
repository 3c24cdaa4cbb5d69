import Treewalk.Parser.Expr
import Treewalk.Tree.Stmt

/-!
# Parsing statements

A declaration is a function, a variable or a statement. Blocks and bodies of functions are made of
declarations; the branches of a conditional and the bodies of loops are statements. Like the parser
for expressions, the parsers for statements are built from the parsers for the statements inside.
-/

namespace Treewalk.Parser

variable {σ ε : Type} [Reader σ ε]

/-- The rest of a statement that is an expression. -/
def expressionStatement (expression : Parser σ ε Expr) : Parser σ ε Stmt := do
  let e ← expression
  let _ ← expect .semicolon "Expect ';' after expression."
  pure (.expr e)

/-- A variable, behind the word that declares it. -/
def varDeclaration (expression : Parser σ ε Expr) : Parser σ ε Stmt := do
  let name ← expect .identifier "Expect variable name."
  let initializer ← match ← accept [.equal] with
    | none => pure none
    | some _ => some <$> expression
  let _ ← expect .semicolon "Expect ';' after variable declaration."
  pure (.var name initializer)

/-- Declarations up to a closing brace, or up to the end of the input. -/
def declarations (bound : Nat) (declaration : Parser σ ε (Option Stmt)) :
    Parser σ ε (List Stmt) := do
  let found ← many next bound
  pure (found.filterMap id)
where
  next : Parser σ ε (Option (Option Stmt)) := do
    if (← atEnd) || (← check .rightBrace) then pure none else some <$> declaration

/-- The rest of a block, behind its opening brace. -/
def block (bound : Nat) (declaration : Parser σ ε (Option Stmt)) : Parser σ ε (List Stmt) := do
  let body ← declarations bound declaration
  let _ ← expect .rightBrace "Expect '\x7d' after block."
  pure body

/-- A parameter of a function, given the parameters before it. -/
def parameter (before : List Token) : Parser σ ε Token := do
  if maxArguments ≤ before.length then
    report (.tooManyParameters (← peek))
  let name ← expect .identifier "Expect parameter name."
  if before.any fun p => p.lexeme == name.lexeme then
    report (.duplicateParameter name)
  pure name

/-- A function, behind the word that declares it. -/
def funDeclaration (bound : Nat) (declaration : Parser σ ε (Option Stmt)) : Parser σ ε Stmt := do
  let name ← expect .identifier "Expect function name."
  let _ ← expect .leftParen "Expect '(' after function name."
  let params ← items bound parameter
  let _ ← expect .rightParen "Expect ')' after parameters."
  let _ ← expect .leftBrace "Expect '\x7b' before function body."
  let body ← withinFunction (block bound declaration)
  pure (.function name params body)

/-- A conditional, behind its first word. -/
def ifStatement (expression : Parser σ ε Expr) (statement : Parser σ ε Stmt) : Parser σ ε Stmt := do
  let _ ← expect .leftParen "Expect '(' after 'if'."
  let cond ← expression
  let _ ← expect .rightParen "Expect ')' after if condition."
  let thenBranch ← statement
  let elseBranch ← match ← accept [.elseWord] with
    | none => pure none
    | some _ => some <$> statement
  pure (.branch cond thenBranch elseBranch)

/-- A loop with a condition only, behind its first word. -/
def whileStatement (expression : Parser σ ε Expr) (statement : Parser σ ε Stmt) :
    Parser σ ε Stmt := do
  let _ ← expect .leftParen "Expect '(' after 'while'."
  let cond ← expression
  let _ ← expect .rightParen "Expect ')' after while condition."
  let body ← statement
  pure (.loop cond body)

/-- The first clause of a loop with three clauses, with its semicolon. -/
def initializer (expression : Parser σ ε Expr) : Parser σ ε (Option Stmt) := do
  match ← accept [.semicolon, .varWord] with
  | none => some <$> expressionStatement expression
  | some t => if t.kind = .semicolon then pure none else some <$> varDeclaration expression

/-- An expression, or nothing in front of a token of the given kind. -/
def clause (stop : TokenKind) (expression : Parser σ ε Expr) : Parser σ ε (Option Expr) := do
  if ← check stop then pure none else some <$> expression

/-- A loop with three clauses, behind its first word. -/
def forStatement (expression : Parser σ ε Expr) (statement : Parser σ ε Stmt) :
    Parser σ ε Stmt := do
  let _ ← expect .leftParen "Expect '(' after 'for'."
  let first ← initializer expression
  let cond ← clause .semicolon expression
  let _ ← expect .semicolon "Expect ';' after loop condition."
  let increment ← clause .rightParen expression
  let _ ← expect .rightParen "Expect ')' after for clauses."
  let body ← statement
  pure (.forLoop first cond increment body)

/-- A print statement, behind its first word. -/
def printStatement (expression : Parser σ ε Expr) : Parser σ ε Stmt := do
  let e ← expression
  let _ ← expect .semicolon "Expect ';' after value."
  pure (.print e)

/-- A return statement, behind its first word. Outside a function it is an error, and still read. -/
def returnStatement (expression : Parser σ ε Expr) (keyword : Token) : Parser σ ε Stmt := do
  if !(← inFunction) then
    report (.returnOutsideFunction keyword)
  let value ← clause .semicolon expression
  let _ ← expect .semicolon "Expect ';' after return value."
  pure (.ret keyword value)

/-- The kinds of the tokens that decide what statement they start. -/
def statementWords : List TokenKind :=
  [.ifWord, .forWord, .whileWord, .printWord, .returnWord, .leftBrace]

/-- A statement, given the parsers for the statements and the declarations inside it. -/
def statementOf (bound : Nat) (statement : Parser σ ε Stmt)
    (declaration : Parser σ ε (Option Stmt)) :
    Parser σ ε Stmt := do
  match ← accept statementWords with
  | none => expressionStatement (expression bound)
  | some t =>
    match t.kind with
    | .ifWord => ifStatement (expression bound) statement
    | .forWord => forStatement (expression bound) statement
    | .whileWord => whileStatement (expression bound) statement
    | .printWord => printStatement (expression bound)
    | .returnWord => returnStatement (expression bound) t
    | _ => Stmt.block <$> block bound declaration

/-- A declaration, given the parsers for the statements and the declarations inside it. One that
ends at an unexpected token leaves no statement. -/
def declarationOf (bound : Nat) (statement : Parser σ ε Stmt)
    (declaration : Parser σ ε (Option Stmt)) :
    Parser σ ε (Option Stmt) :=
  recovering do
    match ← accept [.funWord, .varWord] with
    | none => statementOf bound statement declaration
    | some t =>
      if t.kind = .funWord then funDeclaration bound declaration
      else varDeclaration (expression bound)

mutual

/-- A statement, if fewer than `bound` tokens are left. -/
def statement : (bound : Nat) → Parser σ ε Stmt
  | 0 => exhausted (unexpected "Expect expression.")
  | bound + 1 => statementOf (bound + 1) (statement bound) (declaration bound)

/-- A declaration, if fewer than `bound` tokens are left. -/
def declaration : (bound : Nat) → Parser σ ε (Option Stmt)
  | 0 => exhausted (recovering (unexpected "Expect expression."))
  | bound + 1 => declarationOf (bound + 1) (statement bound) (declaration bound)

end

end Treewalk.Parser
