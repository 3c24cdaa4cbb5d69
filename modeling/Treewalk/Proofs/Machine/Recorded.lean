import Treewalk.Proofs.Session.Reachable

/-!
# Runs that keep a record

What is said about a whole run often depends on what happened on its way: which declarations were
executed, and which values were met. A recorded run yields these events besides its outcome. The
recorded evaluator follows the evaluator step by step, and `forget_evaluate` and its companions say
that without the record it is the same.
-/

namespace Treewalk

/-- Something that happens while statements are executed.

* `declared f before`: a declaration has made the function `f`, in the machine `before`;
* `met v`: an expression has turned out to have the value `v`. -/
inductive Event where
  | declared (f : Function) (before : Machine)
  | met (v : Value)

/-- A run with a record of what happened, however it ends. -/
def Recorded (α : Type) : Type :=
  Machine → List Event × Outcome α

namespace Recorded

variable {α β : Type}

protected def pure (a : α) : Recorded α := fun m =>
  ([], .ok a m)

protected def bind (r : Recorded α) (f : α → Recorded β) : Recorded β := fun m =>
  match r m with
  | (events, .ok a m) =>
    match f a m with
    | (more, o) => (events ++ more, o)
  | (events, .failed e m) => (events, .failed e m)
  | (events, .outOfFuel) => (events, .outOfFuel)

instance : Monad Recorded where
  pure := Recorded.pure
  bind := Recorded.bind

/-- A run during which nothing happens that is worth a record. -/
def ofRun (r : Run α) : Recorded α := fun m =>
  ([], r m)

/-- Runs with another current scope, as `Run.within` does. -/
def within (scope : ScopeId) (r : Recorded α) : Recorded α := fun m =>
  match r { m with scope } with
  | (events, o) => (events, o.mapMachine fun after => { after with scope := m.scope })

/-- Records the value that the run yields. -/
def meeting (r : Recorded Value) : Recorded Value := fun m =>
  match r m with
  | (events, .ok v m) => (events ++ [.met v], .ok v m)
  | (events, .failed e m) => (events, .failed e m)
  | (events, .outOfFuel) => (events, .outOfFuel)

/-- Declares a function in the scope that it remembers, and records that if it succeeds. -/
def declare (f : Function) : Recorded Unit := fun m =>
  match Run.define f.closure f.name (.callable (.function f)) m with
  | .ok () after => ([.declared f m], .ok () after)
  | .failed e after => ([], .failed e after)
  | .outOfFuel => ([], .outOfFuel)

/-- The run without its record. -/
def forget (r : Recorded α) : Run α := fun m =>
  (r m).2

/-! ## The recorded evaluator -/

mutual

/-- The value of an expression. -/
def evaluate (apply : Callable → List Value → Recorded Value) : Expr → Recorded Value
  | .literal value => meeting (pure (.ofLiteral value))
  | .var name => meeting (ofRun (Run.get name))
  | .assign name e => meeting do
    let v ← evaluate apply e
    ofRun (Run.assign name v)
    pure v
  | .unary op e => meeting do
    let v ← evaluate apply e
    ofRun (Run.ofExcept (Operator.unary op v))
  | .binary l op r => meeting do
    let x ← evaluate apply l
    let y ← evaluate apply r
    ofRun (Run.ofExcept (Operator.binary op x y))
  | .logical l op r => meeting do
    let x ← evaluate apply l
    if ← ofRun (Run.ofExcept (Operator.decided op x)) then pure x else evaluate apply r
  | .group e => meeting (evaluate apply e)
  | .call e paren args => meeting do
    let f ← evaluate apply e
    let vs ← evaluateAll apply args
    let c ← ofRun (Run.ofExcept (Operator.callee paren f vs.length))
    ofRun (Run.note (.calling c vs.length))
    apply c vs

/-- The values of expressions, from left to right. -/
def evaluateAll (apply : Callable → List Value → Recorded Value) :
    List Expr → Recorded (List Value)
  | [] => pure []
  | e :: es => do
    let v ← evaluate apply e
    let vs ← evaluateAll apply es
    pure (v :: vs)

end

def evaluateOption (apply : Callable → List Value → Recorded Value) :
    Option Expr → Recorded Value
  | none => pure .null
  | some e => evaluate apply e

/-- Repeats the body as long as the condition is true. -/
def repeatWhile (cond : Recorded Value) (body : Recorded Flow) : (fuel : Nat) → Recorded Flow
  | 0 => ofRun Run.exhausted
  | fuel + 1 => do
    let v ← cond
    if v.truthy then
      match ← body with
      | .returned v => pure (.returned v)
      | .next => repeatWhile cond body fuel
    else
      pure .next

mutual

/-- Executes a statement. -/
def execute (apply : Callable → List Value → Recorded Value) (fuel : Nat) : Stmt → Recorded Flow
  | .expr e => do
    let _ ← evaluate apply e
    pure .next
  | .print e => do
    let v ← evaluate apply e
    ofRun (Run.write (.line v.text))
    pure .next
  | .var name initializer => do
    let v ← evaluateOption apply initializer
    let scope ← ofRun Run.currentScope
    ofRun (Run.define scope name v)
    pure .next
  | .block body => do
    let current ← ofRun Run.currentScope
    let scope ← ofRun (Run.openScope current)
    within scope (executeAll apply fuel body)
  | .branch cond thenBranch elseBranch => do
    let v ← evaluate apply cond
    if v.truthy then execute apply fuel thenBranch
    else
      match elseBranch with
      | some s => execute apply fuel s
      | none => pure .next
  | .loop cond body => repeatWhile (evaluate apply cond) (execute apply fuel body) fuel
  | .function name params body => do
    let scope ← ofRun Run.currentScope
    declare ⟨name, params, body, scope⟩
    pure .next
  | .ret _ value => do
    let v ← evaluateOption apply value
    pure (.returned v)

/-- Executes statements, up to a return. -/
def executeAll (apply : Callable → List Value → Recorded Value) (fuel : Nat) :
    List Stmt → Recorded Flow
  | [] => pure .next
  | s :: rest => do
    match ← execute apply fuel s with
    | .next => executeAll apply fuel rest
    | .returned v => pure (.returned v)

end

/-- Calls something. -/
def call : (fuel : Nat) → Callable → List Value → Recorded Value
  | _, .native f, args => ofRun (f.call args)
  | 0, .function _, _ => ofRun Run.exhausted
  | fuel + 1, .function f, args => do
    let scope ← ofRun (Run.openScope f.closure)
    ofRun (bindParams scope f.params args)
    match ← within scope (executeAll (call fuel) fuel f.body) with
    | .returned v => pure v
    | .next => pure .null

/-! ## Forgetting the record -/

@[simp] theorem forget_pure (a : α) : (pure a : Recorded α).forget = pure a := rfl

@[simp] theorem forget_ofRun (r : Run α) : (ofRun r).forget = r := rfl

/-- The record is put together from both parts, and forgotten with them. -/
@[simp] theorem forget_bind (r : Recorded α) (f : α → Recorded β) :
    (r >>= f).forget = r.forget >>= fun a => (f a).forget := by
  funext m
  change (Recorded.bind r f m).2 = Outcome.bind (r m).2 _
  unfold Recorded.bind
  rcases r m with ⟨events, _ | _ | _⟩ <;> rfl

@[simp] theorem forget_within (scope : ScopeId) (r : Recorded α) :
    (within scope r).forget = Run.within scope r.forget := rfl

@[simp] theorem forget_meeting (r : Recorded Value) : (meeting r).forget = r.forget := by
  funext m
  change (meeting r m).2 = (r m).2
  unfold meeting
  rcases r m with ⟨events, _ | _ | _⟩ <;> rfl

@[simp] theorem forget_declare (f : Function) :
    (declare f).forget = Run.define f.closure f.name (.callable (.function f)) := by
  funext m
  change (declare f m).2 = _
  unfold declare
  cases Run.define f.closure f.name (.callable (.function f)) m <;> rfl

@[simp] theorem forget_ite (p : Prop) [Decidable p] (r r' : Recorded α) :
    (if p then r else r').forget = if p then r.forget else r'.forget :=
  apply_ite forget p r r'

section
variable {apply : Callable → List Value → Recorded Value}

mutual

/-- Without its record, evaluation is evaluation. -/
theorem forget_evaluate : (e : Expr) → (evaluate apply e).forget =
    Treewalk.evaluate (fun c args => (apply c args).forget) e
  | .literal value | .var name => by simp [evaluate, Treewalk.evaluate]
  | .assign name e | .unary op e | .group e => by
    simp [evaluate, Treewalk.evaluate, forget_evaluate e]
  | .binary l op r | .logical l op r => by
    simp [evaluate, Treewalk.evaluate, forget_evaluate l, forget_evaluate r]
  | .call e paren args => by
    simp [evaluate, Treewalk.evaluate, forget_evaluate e, forget_evaluateAll args]

theorem forget_evaluateAll : (es : List Expr) → (evaluateAll apply es).forget =
    Treewalk.evaluateAll (fun c args => (apply c args).forget) es
  | [] => rfl
  | e :: es => by
    simp [evaluateAll, Treewalk.evaluateAll, forget_evaluate e, forget_evaluateAll es]

end

theorem forget_evaluateOption (e : Option Expr) : (evaluateOption apply e).forget =
    Treewalk.evaluateOption (fun c args => (apply c args).forget) e := by
  cases e with
  | none => rfl
  | some e => exact forget_evaluate e

/-- Without its record, a loop is the loop. -/
theorem forget_repeatWhile (cond : Recorded Value) (body : Recorded Flow) (fuel : Nat) :
    (repeatWhile cond body fuel).forget = Treewalk.repeatWhile cond.forget body.forget fuel := by
  induction fuel with
  | zero => rfl
  | succ fuel ih =>
    simp only [repeatWhile, Treewalk.repeatWhile, forget_bind, forget_ite, forget_pure]
    refine bind_congr fun v => ?_
    split
    · refine bind_congr fun flow => ?_
      cases flow with
      | next => exact ih
      | returned v => rfl
    · rfl

mutual

/-- Without its record, execution is execution. -/
theorem forget_execute (fuel : Nat) : (s : Stmt) → (execute apply fuel s).forget =
    Treewalk.execute (fun c args => (apply c args).forget) fuel s
  | .expr e | .print e => by simp [execute, Treewalk.execute, forget_evaluate e]
  | .var name e | .ret name e => by simp [execute, Treewalk.execute, forget_evaluateOption e]
  | .block body => by simp [execute, Treewalk.execute, forget_executeAll fuel body]
  | .branch cond thenBranch none => by
    simp [execute, Treewalk.execute, forget_evaluate cond, forget_execute fuel thenBranch]
  | .branch cond thenBranch (some elseBranch) => by
    simp [execute, Treewalk.execute, forget_evaluate cond, forget_execute fuel thenBranch,
      forget_execute fuel elseBranch]
  | .loop cond body => by
    simp [execute, Treewalk.execute, forget_repeatWhile, forget_evaluate cond,
      forget_execute fuel body]
  | .function name params body => by simp [execute, Treewalk.execute]

theorem forget_executeAll (fuel : Nat) : (ss : List Stmt) → (executeAll apply fuel ss).forget =
    Treewalk.executeAll (fun c args => (apply c args).forget) fuel ss
  | [] => rfl
  | s :: rest => by
    simp only [executeAll, Treewalk.executeAll, forget_bind, forget_execute fuel s]
    refine bind_congr fun flow => ?_
    cases flow with
    | next => exact forget_executeAll fuel rest
    | returned v => rfl

end

end

/-- Without its record, a call is the call, by induction on the fuel. -/
theorem forget_call (fuel : Nat) (c : Callable) (args : List Value) :
    (call fuel c args).forget = Treewalk.call fuel c args := by
  induction fuel generalizing c args with
  | zero => cases c <;> rfl
  | succ fuel ih =>
    cases c with
    | native f => rfl
    | function f =>
      -- The calls inside have less fuel, and are the calls without a record by induction.
      have hcall : (fun c args => (call fuel c args).forget) = Treewalk.call fuel := by
        funext c args
        exact ih c args
      simp only [call, Treewalk.call, forget_bind, forget_ofRun, forget_within, forget_executeAll,
        hcall]
      refine bind_congr fun scope => bind_congr fun _ => bind_congr fun flow => ?_
      cases flow <;> rfl

end Recorded

/-! ## Units -/

/-- Runs a unit and records what happens. In a unit with errors nothing does. -/
def Machine.runRecorded (fuel : Nat) (source : String) (m : Machine) :
    List Event × Option (Report × Machine) :=
  if (Treewalk.scan source).errors = [] ∧
      (Treewalk.parse (Treewalk.scan source).tokens).errors = [] then
    match Recorded.executeAll (Recorded.call fuel) fuel
        (Treewalk.parse (Treewalk.scan source).tokens).statements (m.ready source) with
    | (events, o) => (events, o.reported)
  else
    ([], m.run fuel source)

/-- A unit without errors is executed with a record. -/
theorem Machine.runRecorded_of_parsesTo {source : String} {statements : List Stmt}
    (h : ParsesTo source statements) (m : Machine) (fuel : Nat) :
    m.runRecorded fuel source =
      ((Recorded.executeAll (Recorded.call fuel) fuel statements (m.ready source)).1,
        (Recorded.executeAll (Recorded.call fuel) fuel statements
          (m.ready source)).2.reported) := by
  rw [runRecorded, if_pos ⟨h.scan_errors, h.parse_errors⟩, h.statements_eq]

theorem Machine.runRecorded_of_errors {source : String}
    (h : ¬∃ statements, ParsesTo source statements) (m : Machine) (fuel : Nat) :
    m.runRecorded fuel source = ([], m.run fuel source) := by
  rw [runRecorded, if_neg fun herrors => h ⟨_, herrors.1, herrors.2, rfl⟩]

/-- Keeping a record changes nothing. -/
theorem Machine.runRecorded_snd (m : Machine) (fuel : Nat) (source : String) :
    (m.runRecorded fuel source).2 = m.run fuel source := by
  by_cases h : ∃ statements, ParsesTo source statements
  · obtain ⟨statements, h⟩ := h
    have hcall : (fun c args => (Recorded.call fuel c args).forget) = call fuel := by
      funext c args
      exact Recorded.forget_call fuel c args
    have hforget := @Recorded.forget_executeAll (Recorded.call fuel) fuel statements
    rw [hcall] at hforget
    rw [runRecorded_of_parsesTo h, run_of_parsesTo h, ← hforget]
    rfl
  · rw [runRecorded_of_errors h]

end Treewalk
