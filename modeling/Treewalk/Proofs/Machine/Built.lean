import Treewalk.Machine.Unit

/-!
# Runs built from the basic ones

Everything that a machine does is built from a few basic runs. `Run.Built` says so; what holds of
all runs is then proved by one induction on how they are built. The first such facts are that no run
looks at the log (`Built.unlogged`), nor at what has been written (`Built.behind`).
-/

namespace Treewalk

/-- What follows a result. -/
def Outcome.bind {α β : Type} (o : Outcome α) (f : α → Run β) : Outcome β :=
  match o with
  | .ok a m => f a m
  | .failed e m => .failed e m
  | .outOfFuel => .outOfFuel

/-- The outcome with another machine left. -/
def Outcome.mapMachine {α : Type} (g : Machine → Machine) : Outcome α → Outcome α
  | ok a m => ok a (g m)
  | failed e m => failed e (g m)
  | outOfFuel => outOfFuel

namespace Run

/-- A sequence, as an operation on the outcome of its first run. -/
theorem bind_apply {α β : Type} (r : Run α) (f : α → Run β) (m : Machine) :
    (r >>= f) m = (r m).bind f := rfl

/-- A run in another scope, as an operation on its outcome. -/
theorem within_apply {α : Type} (scope : ScopeId) (r : Run α) (m : Machine) :
    within scope r m = (r { m with scope }).mapMachine fun after =>
      { after with scope := m.scope } := rfl

/-- The run is built from the basic runs. -/
inductive Built : {α : Type} → Run α → Prop where
  | pure {α : Type} (a : α) : Built (pure a : Run α)
  | bind {α β : Type} {r : Run α} {f : α → Run β} :
      Built r → (∀ a, Built (f a)) → Built (r >>= f)
  | fail {α : Type} (e : RuntimeError) : Built (fail e : Run α)
  | exhausted {α : Type} : Built (exhausted : Run α)
  | note (e : LogEntry) : Built (note e)
  | write (w : Write) : Built (write w)
  | readClock : Built readClock
  | currentScope : Built currentScope
  | openScope (enclosing : ScopeId) : Built (openScope enclosing)
  | within {α : Type} {r : Run α} (scope : ScopeId) : Built r → Built (within scope r)
  | get (name : Token) : Built (get name)
  | define (scope : ScopeId) (name : Token) (value : Value) : Built (define scope name value)
  | assign (name : Token) (value : Value) : Built (assign name value)

theorem Built.ofExcept {α : Type} (x : Except RuntimeError α) : Built (ofExcept x) := by
  cases x with
  | error e => exact .fail e
  | ok a => exact .pure a

end Run

/-! ## Construction -/

section
variable {apply : Callable → List Value → Run Value}

mutual

/-- Evaluation does nothing that the basic runs do not do, if calls do not. -/
theorem evaluate_built (h : ∀ c args, (apply c args).Built) :
    (e : Expr) → (evaluate apply e).Built
  | .literal value => by rw [evaluate]; exact .pure _
  | .var name => by rw [evaluate]; exact .get name
  | .assign name e => by
    rw [evaluate]
    exact .bind (evaluate_built h e) fun v => .bind (.assign name v) fun _ => .pure v
  | .unary op e => by
    rw [evaluate]
    exact .bind (evaluate_built h e) fun v => .ofExcept _
  | .binary l op r => by
    rw [evaluate]
    exact .bind (evaluate_built h l) fun x => .bind (evaluate_built h r) fun y => .ofExcept _
  | .logical l op r => by
    rw [evaluate]
    refine .bind (evaluate_built h l) fun x => .bind (.ofExcept _) fun decided => ?_
    split
    · exact .pure x
    · exact evaluate_built h r
  | .group e => by rw [evaluate]; exact evaluate_built h e
  | .call e paren args => by
    rw [evaluate]
    exact .bind (evaluate_built h e) fun f => .bind (evaluateAll_built h args) fun vs =>
      .bind (.ofExcept _) fun c => .bind (.note _) fun _ => h c vs

theorem evaluateAll_built (h : ∀ c args, (apply c args).Built) :
    (es : List Expr) → (evaluateAll apply es).Built
  | [] => by rw [evaluateAll]; exact .pure []
  | e :: es => by
    rw [evaluateAll]
    exact .bind (evaluate_built h e) fun v => .bind (evaluateAll_built h es) fun vs => .pure _

end

theorem evaluateOption_built (h : ∀ c args, (apply c args).Built) (e : Option Expr) :
    (evaluateOption apply e).Built := by
  cases e with
  | none => exact .pure _
  | some e => exact evaluate_built h e

/-- A loop is built from its condition and its body, with as many rounds as there is fuel. -/
theorem repeatWhile_built {cond : Run Value} {body : Run Flow} (hcond : cond.Built)
    (hbody : body.Built) (fuel : Nat) : (repeatWhile cond body fuel).Built := by
  induction fuel with
  | zero => exact .exhausted
  | succ fuel ih =>
    refine .bind hcond fun v => ?_
    split
    · refine .bind hbody fun flow => ?_
      cases flow with
      | next => exact ih
      | returned v => exact .pure _
    · exact .pure _

mutual

/-- Execution does nothing but basic runs either, and what calls do. -/
theorem execute_built (h : ∀ c args, (apply c args).Built) (fuel : Nat) :
    (s : Stmt) → (execute apply fuel s).Built
  | .expr e => by
    rw [execute]
    exact .bind (evaluate_built h e) fun _ => .pure _
  | .print e => by
    rw [execute]
    exact .bind (evaluate_built h e) fun v => .bind (.write _) fun _ => .pure _
  | .var name initializer => by
    rw [execute]
    exact .bind (evaluateOption_built h initializer) fun v => .bind .currentScope fun scope =>
      .bind (.define scope name v) fun _ => .pure _
  | .block body => by
    rw [execute]
    exact .bind .currentScope fun scope => .bind (.openScope scope) fun inner =>
      .within inner (executeAll_built h fuel body)
  | .branch cond thenBranch none => by
    rw [execute]
    refine .bind (evaluate_built h cond) fun v => ?_
    split
    · exact execute_built h fuel thenBranch
    · exact .pure _
  | .branch cond thenBranch (some elseBranch) => by
    rw [execute]
    refine .bind (evaluate_built h cond) fun v => ?_
    split
    · exact execute_built h fuel thenBranch
    · exact execute_built h fuel elseBranch
  | .loop cond body => by
    rw [execute]
    exact repeatWhile_built (evaluate_built h cond) (execute_built h fuel body) fuel
  | .function name params body => by
    rw [execute]
    exact .bind .currentScope fun scope => .bind (.define scope name _) fun _ => .pure _
  | .ret keyword value => by
    rw [execute]
    exact .bind (evaluateOption_built h value) fun v => .pure _

theorem executeAll_built (h : ∀ c args, (apply c args).Built) (fuel : Nat) :
    (ss : List Stmt) → (executeAll apply fuel ss).Built
  | [] => by rw [executeAll]; exact .pure _
  | s :: rest => by
    rw [executeAll]
    refine .bind (execute_built h fuel s) fun flow => ?_
    cases flow with
    | next => exact executeAll_built h fuel rest
    | returned v => exact .pure _

end

end

theorem bindParams_built (scope : ScopeId) (params : List Token) (args : List Value) :
    (bindParams scope params args).Built := by
  induction params generalizing args with
  | nil => exact .pure ()
  | cons p ps ih =>
    cases args with
    | nil => exact .pure ()
    | cons v vs => exact .bind (.define scope p v) fun _ => ih vs

/-- Native functions only read the clock and write. -/
theorem nativeCall_built (f : Native) (args : List Value) : (f.call args).Built := by
  cases f with
  | clock => exact .bind .readClock fun _ => .pure _
  | write =>
    refine .bind ?_ fun _ => .pure _
    -- Each argument is written on its own.
    induction args with
    | nil => exact .pure _
    | cons v vs ih => exact .bind (.write _) fun _ => ih
  | writeLine => exact .bind (.write _) fun _ => .pure _

/-- Calls are built from the basic runs, by induction on the fuel, so that what holds of these holds
of everything that a machine does. -/
theorem call_built (fuel : Nat) (c : Callable) (args : List Value) : (call fuel c args).Built := by
  induction fuel generalizing c args with
  | zero =>
    cases c with
    | native f => exact nativeCall_built f args
    | function f => exact .exhausted
  | succ fuel ih =>
    cases c with
    | native f => exact nativeCall_built f args
    | function f =>
      refine .bind (.openScope f.closure) fun scope => .bind (bindParams_built ..) fun _ =>
        .bind (.within scope (executeAll_built ih fuel f.body)) fun flow => ?_
      cases flow with
      | next => exact .pure _
      | returned v => exact .pure _

/-! ## The log -/

/-- The machine without what it has logged. -/
def Machine.unlogged (m : Machine) : Machine := { m with log := #[] }

@[simp] theorem Machine.unlogged_unlogged (m : Machine) : m.unlogged.unlogged = m.unlogged := rfl

@[simp] theorem Machine.unlogged_note (m : Machine) (e : LogEntry) :
    (m.note e).unlogged = m.unlogged := rfl

/-- The outcome without what was logged. -/
def Outcome.unlogged {α : Type} (o : Outcome α) : Outcome α :=
  o.mapMachine Machine.unlogged

/-- What is logged by the first run is not seen by the second one. -/
theorem Outcome.unlogged_bind {α β : Type} {f : α → Run β}
    (hf : ∀ a m, (f a m).unlogged = (f a m.unlogged).unlogged) (o : Outcome α) :
    (o.bind f).unlogged = (o.unlogged.bind f).unlogged := by
  cases o with
  | ok a m => exact hf a m
  | failed e m => rfl
  | outOfFuel => rfl

theorem Outcome.unlogged_within {α : Type} (o : Outcome α) (scope : ScopeId) :
    (o.mapMachine fun after => { after with scope }).unlogged =
      o.unlogged.mapMachine fun after => { after with scope } := by
  cases o <;> rfl

/-- No run looks at the log. -/
theorem Run.Built.unlogged {α : Type} {r : Run α} (h : r.Built) (m : Machine) :
    (r m).unlogged = (r m.unlogged).unlogged := by
  induction h generalizing m with
  | pure a => rfl
  | @bind _ _ r f _ _ ihr ihf =>
    -- The first part is run with or without a log, and the second one behind either of them.
    rw [bind_apply, bind_apply, Outcome.unlogged_bind ihf, ihr, ← Outcome.unlogged_bind ihf]
  | fail e => rfl
  | exhausted => rfl
  | note e => rfl
  | write w => rfl
  | readClock => rfl
  | currentScope => rfl
  | openScope enclosing => rfl
  | @within _ r scope _ ih =>
    have hr := ih { m with scope }
    rw [within_apply, within_apply, Outcome.unlogged_within, hr]
    exact (Outcome.unlogged_within ..).symm
  | get name =>
    simp only [Run.get, Machine.unlogged]
    split <;> rfl
  | define scope name value =>
    simp only [Run.define, Machine.unlogged]
    split <;> rfl
  | assign name value =>
    simp only [Run.assign, Machine.unlogged]
    split <;> rfl

/-! ## What has been written -/

/-- Texts that are written one after the other stand behind all that was written before. -/
theorem forM_write_eq (vs : List Value) (m : Machine) :
    (vs.forM fun v => Run.write (.plain v.text)) m =
      .ok () { m with written := m.written ++ (vs.map fun v => Write.plain v.text).toArray } := by
  induction vs generalizing m with
  | nil =>
    rw [List.map_nil, Array.append_empty]
    rfl
  | cons v vs ih =>
    refine (ih (m.write (.plain v.text))).trans ?_
    simp [Machine.write]

/-- The machine with something written before all that it has written itself. -/
def Machine.behind (ws : Array Write) (m : Machine) : Machine :=
  { m with written := ws ++ m.written }

/-- The machine without what it has written. -/
def Machine.silenced (m : Machine) : Machine := { m with written := #[] }

/-- A machine is one that has written nothing, behind all that it has written. -/
theorem Machine.behind_silenced (m : Machine) : m.silenced.behind m.written = m := by
  simp only [behind, silenced, Array.append_empty]

/-- No run looks at what has been written. -/
theorem Run.Built.behind {α : Type} {r : Run α} (h : r.Built) (ws : Array Write) (m : Machine) :
    r (m.behind ws) = (r m).mapMachine (Machine.behind ws) := by
  induction h generalizing m with
  | @bind _ _ r f _ _ ihr ihf =>
    rw [bind_apply, bind_apply, ihr]
    cases r m with
    | ok a left => exact ihf a left
    | failed e left => rfl
    | outOfFuel => rfl
  | write w =>
    simp only [Run.write, Machine.write, Machine.behind, Outcome.mapMachine, Array.append_push]
  | @within _ r scope _ ih =>
    -- The scope is changed and changed back, which has nothing to do with what was written.
    have hr := ih { m with scope }
    rw [within_apply, within_apply]
    refine (congrArg _ hr).trans ?_
    cases r { m with scope } <;> rfl
  | get name =>
    simp only [Run.get, Machine.behind]
    split <;> rfl
  | define scope name value =>
    simp only [Run.define, Machine.behind]
    split <;> rfl
  | assign name value =>
    simp only [Run.assign, Machine.behind]
    split <;> rfl
  | _ => rfl

/-- What a run does in a machine that has written something it does behind that. -/
theorem Run.Built.apply_eq {α : Type} {r : Run α} (h : r.Built) (m : Machine) :
    r m = (r m.silenced).mapMachine (Machine.behind m.written) := by
  rw [← h.behind, m.behind_silenced]

end Treewalk
