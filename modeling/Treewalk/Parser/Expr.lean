import Treewalk.Parser.Basic
import Treewalk.Tree.Expr

/-!
# Parsing expressions

Operators bind on levels. An operand of a level is an expression of the next tighter level, and the
operators of one level group from the left. Assignment is looser than all levels and groups from the
right; unary operators and calls are tighter.

An expression inside another one stands behind at least one token of it. So the parser for
expressions is built from the parser for the expressions inside, for ever smaller bounds, and a
bound above the number of tokens left is never used up.
-/

namespace Treewalk.Parser

variable {σ ε : Type} [Reader σ ε]

/-- The largest number of arguments of a call and of parameters of a function. -/
def maxArguments : Nat := 255

/-- A level of binary operators: their kinds and the expression that they make. -/
structure Level where
  operators : List TokenKind
  node : Expr → Token → Expr → Expr

/-- The levels, from the loosest to the tightest. -/
def Level.ladder : List Level :=
  [ ⟨[.orWord], .logical⟩,
    ⟨[.andWord], .logical⟩,
    ⟨[.bangEqual, .equalEqual], .binary⟩,
    ⟨[.greater, .greaterEqual, .less, .lessEqual], .binary⟩,
    ⟨[.minus, .plus], .binary⟩,
    ⟨[.slash, .star], .binary⟩ ]

/-- An operator of the given kinds and the operand behind it. -/
def operation (kinds : List TokenKind) (operand : Parser σ ε Expr) :
    Parser σ ε (Option (Token × Expr)) := do
  match ← accept kinds with
  | none => pure none
  | some op => do
    let rhs ← operand
    pure (some (op, rhs))

/-- The expressions of a level, given those of the next tighter one. -/
def Level.expression (level : Level) (bound : Nat) (operand : Parser σ ε Expr) :
    Parser σ ε Expr := do
  let first ← operand
  let rest ← many (operation level.operators operand) bound
  pure (rest.foldl (fun lhs (op, rhs) => level.node lhs op rhs) first)

/-- A literal, a name, or an expression in parentheses. -/
def primary (inner : Parser σ ε Expr) : Parser σ ε Expr := do
  let t ← peek
  match t.kind, t.literal with
  | .falseWord, _ => literalToken t (.bool false)
  | .trueWord, _ => literalToken t (.bool true)
  | .nullWord, _ => literalToken t .null
  | .number, some value => literalToken t value
  | .string, some value => literalToken t value
  | .identifier, _ => do
    let _ ← accept [t.kind]
    pure (.var t)
  | .leftParen, _ => do
    let _ ← accept [t.kind]
    let e ← inner
    let _ ← expect .rightParen "Expect ')' after expression."
    pure (.group e)
  | _, _ => unexpected "Expect expression."
where
  literalToken (t : Token) (value : Literal) : Parser σ ε Expr := do
    let _ ← accept [t.kind]
    pure (.literal value)

/-- An argument of a call, given the arguments before it. -/
def argument (inner : Parser σ ε Expr) (before : List Expr) : Parser σ ε Expr := do
  if maxArguments ≤ before.length then
    report (.tooManyArguments (← peek))
  inner

/-- The arguments of a call and the parenthesis that closes them. -/
def arguments (bound : Nat) (inner : Parser σ ε Expr) :
    Parser σ ε (Option (List Expr × Token)) := do
  match ← accept [.leftParen] with
  | none => pure none
  | some _ => do
    let args ← items bound (argument inner)
    let paren ← expect .rightParen "Expect ')' after arguments."
    pure (some (args, paren))

/-- A chain of calls. -/
def call (bound : Nat) (inner : Parser σ ε Expr) : Parser σ ε Expr := do
  let callee ← primary inner
  let calls ← many (arguments bound inner) bound
  pure (calls.foldl (fun callee (args, paren) => .call callee paren args) callee)

/-- A chain of calls behind any number of unary operators. -/
def unary (bound : Nat) (inner : Parser σ ε Expr) : Parser σ ε Expr := do
  let ops ← many (accept [.bang, .minus]) bound
  let operand ← call bound inner
  pure (ops.foldr Expr.unary operand)

/-- An expression of the loosest level. -/
def operations (bound : Nat) (inner : Parser σ ε Expr) : Parser σ ε Expr :=
  Level.ladder.foldr (fun level operand => level.expression bound operand) (unary bound inner)

/-- An assignment, or an expression without one. Only a variable can be assigned to; if something
else stands before the equals sign, the value behind it is dropped. -/
def assignment (bound : Nat) (inner : Parser σ ε Expr) : Parser σ ε Expr := do
  let target ← operations bound inner
  match ← accept [.equal] with
  | none => pure target
  | some equals => do
    let value ← inner
    match target with
    | .var name => pure (.assign name value)
    | _ => do
      report (.invalidAssignmentTarget equals)
      pure target

/-- An expression, if fewer than `bound` tokens are left. -/
def expression : (bound : Nat) → Parser σ ε Expr
  | 0 => exhausted (unexpected "Expect expression.")
  | bound + 1 => assignment (bound + 1) (expression bound)

end Treewalk.Parser
