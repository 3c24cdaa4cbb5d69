import Treewalk.Machine.Eval

/-!
# Executing statements

Fuel bounds how deep calls nest and how many rounds a loop makes. A run that ends with fuel to spare
ends in the same way with more of it.
-/

namespace Treewalk

/-- How a statement ends: execution goes on behind it, or the function around it returns. -/
inductive Flow where
  | next
  | returned (v : Value)

/-- Runs `body` as long as `cond` holds, for fewer than `fuel` rounds. -/
def repeatWhile (cond : Run Value) (body : Run Flow) : (fuel : Nat) → Run Flow
  | 0 => Run.exhausted
  | fuel + 1 => do
    let v ← cond
    if v.truthy then
      match ← body with
      | .returned v => pure (.returned v)
      | .next => repeatWhile cond body fuel
    else
      pure .next

/-- The value of an expression that may be absent. -/
def evaluateOption (apply : Callable → List Value → Run Value) : Option Expr → Run Value
  | none => pure .null
  | some e => evaluate apply e

mutual

/-- Executes a statement. -/
def execute (apply : Callable → List Value → Run Value) (fuel : Nat) : Stmt → Run Flow
  | .expr e => do
    let _ ← evaluate apply e
    pure .next
  | .print e => do
    let v ← evaluate apply e
    Run.write (.line v.text)
    pure .next
  | .var name initializer => do
    let v ← evaluateOption apply initializer
    Run.define (← Run.currentScope) name v
    pure .next
  | .block body => do
    let scope ← Run.openScope (← Run.currentScope)
    Run.within scope (executeAll apply fuel body)
  | .branch cond thenBranch elseBranch => do
    let v ← evaluate apply cond
    if v.truthy then execute apply fuel thenBranch
    else
      match elseBranch with
      | some s => execute apply fuel s
      | none => pure .next
  | .loop cond body => repeatWhile (evaluate apply cond) (execute apply fuel body) fuel
  | .function name params body => do
    let scope ← Run.currentScope
    Run.define scope name (.callable (.function ⟨name, params, body, scope⟩))
    pure .next
  | .ret _ value => do
    let v ← evaluateOption apply value
    pure (.returned v)

/-- Executes statements in order, up to one that returns. -/
def executeAll (apply : Callable → List Value → Run Value) (fuel : Nat) : List Stmt → Run Flow
  | [] => pure .next
  | s :: rest => do
    match ← execute apply fuel s with
    | .next => executeAll apply fuel rest
    | .returned v => pure (.returned v)

end

/-! ## Calls -/

/-- What a native does. The arguments may be more or fewer than its arity. -/
def Native.call : Native → List Value → Run Value
  | clock, _ => do
    let reading ← Run.readClock
    pure (.number reading)
  | write, args => do
    args.forM fun v => Run.write (.plain v.text)
    pure .null
  | writeLine, args => do
    Run.write (.line (String.join (args.map Value.text)))
    pure .null

/-- Binds parameters to arguments, as far as there are both. -/
def bindParams (scope : ScopeId) : List Token → List Value → Run Unit
  | p :: ps, v :: vs => do
    Run.define scope p v
    bindParams scope ps vs
  | _, _ => pure ()

/-- Calls something. The body of a function runs in a scope of its own, inside the scope of its
declaration. -/
def call : (fuel : Nat) → Callable → List Value → Run Value
  | _, .native f, args => f.call args
  | 0, .function _, _ => Run.exhausted
  | fuel + 1, .function f, args => do
    let scope ← Run.openScope f.closure
    bindParams scope f.params args
    match ← Run.within scope (executeAll (call fuel) fuel f.body) with
    | .returned v => pure v
    | .next => pure .null

end Treewalk
