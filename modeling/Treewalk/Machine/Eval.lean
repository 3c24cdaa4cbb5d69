import Treewalk.Machine.Basic

/-!
# Evaluating expressions

Operands are evaluated from the left, and before the operator is looked at. What a call does is a
parameter, `apply`: an expression contains no statements, but a call runs some.
-/

namespace Treewalk

/-! ## Operators -/

namespace Operator

/-- The result of a unary operator. -/
def unary (op : Token) (v : Value) : Except RuntimeError Value :=
  match op.kind with
  | .minus =>
    match v.number? with
    | some x => .ok (.number (-x))
    | none => .error (.operandMustBeNumber op)
  | .bang => .ok (.bool !v.truthy)
  | _ => .error (.unknownOperator op)

/-- The sum of two numbers, or one string behind the other. -/
def add (op : Token) : Value → Value → Except RuntimeError Value
  | .number x, .number y => .ok (.number (x + y))
  | .string s, .string t => .ok (.string (s ++ t))
  | _, _ => .error (.invalidAddOperands op)

/-- The result of an operation on two numbers, if the operator has one. It is a value that could
also be spelt out. The operands are looked at first. -/
def onNumbers (operation? : TokenKind → Option (Float → Float → Literal)) (op : Token)
    (l r : Value) : Except RuntimeError Value :=
  match l.number?, r.number? with
  | some x, some y =>
    match operation? op.kind with
    | some f => .ok (.ofLiteral (f x y))
    | none => .error (.unknownOperator op)
  | _, _ => .error (.operandsMustBeNumbers op)

/-- The operations that make numbers. They follow IEEE 754, so that a division by zero has a
result. -/
def arithmetic? : TokenKind → Option (Float → Float → Literal)
  | .minus => some fun x y => .number (x - y)
  | .star => some fun x y => .number (x * y)
  | .slash => some fun x y => .number (x / y)
  | _ => none

/-- The operations that compare numbers. -/
def comparison? : TokenKind → Option (Float → Float → Literal)
  | .less => some fun x y => .bool (x < y)
  | .lessEqual => some fun x y => .bool (x ≤ y)
  | .greater => some fun x y => .bool (x > y)
  | .greaterEqual => some fun x y => .bool (x ≥ y)
  | _ => none

/-- The result of a binary operator. -/
def binary (op : Token) (l r : Value) : Except RuntimeError Value :=
  match op.kind with
  | .plus => add op l r
  | .minus | .star | .slash => onNumbers arithmetic? op l r
  | .less | .lessEqual | .greater | .greaterEqual => onNumbers comparison? op l r
  | .equalEqual => .ok (.bool (l.same r))
  | .bangEqual => .ok (.bool !l.same r)
  | _ => .error (.unknownOperator op)

/-- Whether the left operand of a logical operator is its result. -/
def decided (op : Token) (l : Value) : Except RuntimeError Bool :=
  match op.kind with
  | .orWord => .ok l.truthy
  | .andWord => .ok !l.truthy
  | _ => .error (.unknownOperator op)

/-- What a call calls: it must be something that can be called, and with this number of
arguments. -/
def callee (paren : Token) (v : Value) (args : Nat) : Except RuntimeError Callable :=
  match v.callable? with
  | none => .error (.notCallable paren)
  | some c => if c.arity = args then .ok c else .error (.arityMismatch paren c.arity args)

end Operator

/-! ## Expressions -/

mutual

/-- The value of an expression. -/
def evaluate (apply : Callable → List Value → Run Value) : Expr → Run Value
  | .literal value => pure (.ofLiteral value)
  | .var name => Run.get name
  | .assign name e => do
    let v ← evaluate apply e
    Run.assign name v
    pure v
  | .unary op e => do
    let v ← evaluate apply e
    Run.ofExcept (Operator.unary op v)
  | .binary l op r => do
    let x ← evaluate apply l
    let y ← evaluate apply r
    Run.ofExcept (Operator.binary op x y)
  | .logical l op r => do
    let x ← evaluate apply l
    if ← Run.ofExcept (Operator.decided op x) then pure x else evaluate apply r
  | .group e => evaluate apply e
  | .call e paren args => do
    let f ← evaluate apply e
    let vs ← evaluateAll apply args
    let c ← Run.ofExcept (Operator.callee paren f vs.length)
    Run.note (.calling c vs.length)
    apply c vs

/-- The values of expressions, evaluated from the left. -/
def evaluateAll (apply : Callable → List Value → Run Value) : List Expr → Run (List Value)
  | [] => pure []
  | e :: es => do
    let v ← evaluate apply e
    let vs ← evaluateAll apply es
    pure (v :: vs)

end

end Treewalk
