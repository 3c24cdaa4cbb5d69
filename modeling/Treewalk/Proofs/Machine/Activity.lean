import Mathlib.Logic.Relation
import Treewalk.Proofs.Machine.Obedience

/-!
# Activities

An activity is something that a machine is asked to do: evaluate an expression, execute a statement,
make a call. On its way it starts other activities, each in the machine that there is at that
moment. `Activity.Starts` says which; it is the evaluator's order of work, written out. With it one
can speak of all that happens during a run, whether the run comes to an end or not:

* every error that ends an activity is raised by an activity that it has led to (`call_traces` and
  the theorems before it);
* a policy that an activity obeys is obeyed by all activities that it leads to
  (`Activity.Obeys.of_leads`).
-/

namespace Treewalk

/-! ## Machines in a new scope -/

/-- The number of the scope that is opened next. -/
def Machine.nextScope (m : Machine) : ScopeId :=
  m.store.scopes.size

/-- The machine after a scope was opened inside another one. -/
def Machine.opened (m : Machine) (enclosing : ScopeId) : Machine :=
  { m with store := (m.store.openScope (some enclosing)).2 }

/-- The machine with another current scope. -/
def Machine.inScope (m : Machine) (scope : ScopeId) : Machine :=
  { m with scope }

/-- The error with which a run ended, if it did. -/
def Outcome.error? {α : Type} : Outcome α → Option RuntimeError
  | failed e _ => some e
  | _ => none

/-! ## Activities and those that they start -/

/-- Something that a machine can be asked to do. -/
inductive Task where
  | evaluate (e : Expr)
  | evaluateAll (es : List Expr)
  | execute (s : Stmt)
  | executeAll (ss : List Stmt)
  | call (c : Callable) (args : List Value)

/-- A task, the machine in which it starts, and the fuel that it has. -/
structure Activity where
  fuel : Nat
  task : Task
  machine : Machine

namespace Activity

/-- The first activity starts the second one as a part of its own work. An activity that comes after
another one starts in the machine that the other one leaves, and only if that has a result. -/
inductive Starts : Activity → Activity → Prop where
  | assigned {k name e m} : Starts ⟨k, .evaluate (.assign name e), m⟩ ⟨k, .evaluate e, m⟩
  | operand {k op e m} : Starts ⟨k, .evaluate (.unary op e), m⟩ ⟨k, .evaluate e, m⟩
  | binaryLeft {k l op r m} : Starts ⟨k, .evaluate (.binary l op r), m⟩ ⟨k, .evaluate l, m⟩
  | binaryRight {k l op r m x m₁} : evaluate (call k) l m = .ok x m₁ →
      Starts ⟨k, .evaluate (.binary l op r), m⟩ ⟨k, .evaluate r, m₁⟩
  | logicalLeft {k l op r m} : Starts ⟨k, .evaluate (.logical l op r), m⟩ ⟨k, .evaluate l, m⟩
  | logicalRight {k l op r m x m₁} : evaluate (call k) l m = .ok x m₁ →
      Operator.decided op x = .ok false →
      Starts ⟨k, .evaluate (.logical l op r), m⟩ ⟨k, .evaluate r, m₁⟩
  | grouped {k e m} : Starts ⟨k, .evaluate (.group e), m⟩ ⟨k, .evaluate e, m⟩
  | callee {k e paren args m} : Starts ⟨k, .evaluate (.call e paren args), m⟩ ⟨k, .evaluate e, m⟩
  | arguments {k e paren args m f m₁} : evaluate (call k) e m = .ok f m₁ →
      Starts ⟨k, .evaluate (.call e paren args), m⟩ ⟨k, .evaluateAll args, m₁⟩
  | called {k e paren args m f m₁ vs m₂ c} : evaluate (call k) e m = .ok f m₁ →
      evaluateAll (call k) args m₁ = .ok vs m₂ → Operator.callee paren f vs.length = .ok c →
      Starts ⟨k, .evaluate (.call e paren args), m⟩
        ⟨k, .call c vs, m₂.note (.calling c vs.length)⟩
  | firstExpr {k e es m} : Starts ⟨k, .evaluateAll (e :: es), m⟩ ⟨k, .evaluate e, m⟩
  | otherExprs {k e es m v m₁} : evaluate (call k) e m = .ok v m₁ →
      Starts ⟨k, .evaluateAll (e :: es), m⟩ ⟨k, .evaluateAll es, m₁⟩
  | expr {k e m} : Starts ⟨k, .execute (.expr e), m⟩ ⟨k, .evaluate e, m⟩
  | printed {k e m} : Starts ⟨k, .execute (.print e), m⟩ ⟨k, .evaluate e, m⟩
  | initializer {k name e m} : Starts ⟨k, .execute (.var name (some e)), m⟩ ⟨k, .evaluate e, m⟩
  | block {k body m} : Starts ⟨k, .execute (.block body), m⟩
      ⟨k, .executeAll body, (m.opened m.scope).inScope m.nextScope⟩
  | condition {k cond s s' m} : Starts ⟨k, .execute (.branch cond s s'), m⟩ ⟨k, .evaluate cond, m⟩
  | thenBranch {k cond s s' m v m₁} : evaluate (call k) cond m = .ok v m₁ → v.truthy →
      Starts ⟨k, .execute (.branch cond s s'), m⟩ ⟨k, .execute s, m₁⟩
  | elseBranch {k cond s s' m v m₁} : evaluate (call k) cond m = .ok v m₁ → ¬v.truthy →
      Starts ⟨k, .execute (.branch cond s (some s')), m⟩ ⟨k, .execute s', m₁⟩
  | loopCondition {k cond s m} : Starts ⟨k, .execute (.loop cond s), m⟩ ⟨k, .evaluate cond, m⟩
  | loopBody {k cond s m v m₁} : evaluate (call k) cond m = .ok v m₁ → v.truthy →
      Starts ⟨k, .execute (.loop cond s), m⟩ ⟨k, .execute s, m₁⟩
  | loopAgain {k cond s m v m₁ m₂} : evaluate (call k) cond m = .ok v m₁ → v.truthy →
      execute (call k) k s m₁ = .ok .next m₂ →
      Starts ⟨k, .execute (.loop cond s), m⟩ ⟨k, .execute (.loop cond s), m₂⟩
  | returned {k keyword e m} : Starts ⟨k, .execute (.ret keyword (some e)), m⟩ ⟨k, .evaluate e, m⟩
  | firstStmt {k s ss m} : Starts ⟨k, .executeAll (s :: ss), m⟩ ⟨k, .execute s, m⟩
  | otherStmts {k s ss m m₁} : execute (call k) k s m = .ok .next m₁ →
      Starts ⟨k, .executeAll (s :: ss), m⟩ ⟨k, .executeAll ss, m₁⟩
  | body {k f args m m₁} :
      bindParams m.nextScope f.params args (m.opened f.closure) = .ok () m₁ →
      Starts ⟨k + 1, .call (.function f) args, m⟩
        ⟨k, .executeAll f.body, m₁.inScope m.nextScope⟩

/-- The activity itself raises an error, when those that it has started have results. -/
inductive Raises : Activity → RuntimeError → Prop where
  | get {k name m e} : m.store.get m.scope name = .error e →
      Raises ⟨k, .evaluate (.var name), m⟩ e
  | assign {k name x m v m₁ e} : evaluate (call k) x m = .ok v m₁ →
      m₁.store.binder m₁.scope name = .error e → Raises ⟨k, .evaluate (.assign name x), m⟩ e
  | unary {k op x m v m₁ e} : evaluate (call k) x m = .ok v m₁ → Operator.unary op v = .error e →
      Raises ⟨k, .evaluate (.unary op x), m⟩ e
  | binary {k l op r m x m₁ y m₂ e} : evaluate (call k) l m = .ok x m₁ →
      evaluate (call k) r m₁ = .ok y m₂ → Operator.binary op x y = .error e →
      Raises ⟨k, .evaluate (.binary l op r), m⟩ e
  | logical {k l op r m x m₁ e} : evaluate (call k) l m = .ok x m₁ →
      Operator.decided op x = .error e → Raises ⟨k, .evaluate (.logical l op r), m⟩ e
  | callee {k x paren args m f m₁ vs m₂ e} : evaluate (call k) x m = .ok f m₁ →
      evaluateAll (call k) args m₁ = .ok vs m₂ → Operator.callee paren f vs.length = .error e →
      Raises ⟨k, .evaluate (.call x paren args), m⟩ e
  | var {k name initializer m v m₁ e} : evaluateOption (call k) initializer m = .ok v m₁ →
      m₁.store.checkFree m₁.scope name = .error e →
      Raises ⟨k, .execute (.var name initializer), m⟩ e
  | function {k name params body m e} : m.store.checkFree m.scope name = .error e →
      Raises ⟨k, .execute (.function name params body), m⟩ e
  | params {k f args m e} :
      (bindParams m.nextScope f.params args (m.opened f.closure)).error? = some e →
      Raises ⟨k + 1, .call (.function f) args, m⟩ e

/-- The first activity leads to the second one: it starts it, or one that leads to it. -/
def Leads : Activity → Activity → Prop :=
  Relation.ReflTransGen Starts

/-- The error is raised by an activity that this one leads to. -/
def Traces (a : Activity) (e : RuntimeError) : Prop :=
  ∃ b, a.Leads b ∧ b.Raises e

theorem Traces.here {a : Activity} {e : RuntimeError} (h : a.Raises e) : a.Traces e :=
  ⟨a, .refl, h⟩

/-- What an activity leads to, those lead to that start it. -/
theorem Traces.of_starts {a b : Activity} {e : RuntimeError} (hb : b.Traces e) (h : a.Starts b) :
    a.Traces e := by
  obtain ⟨c, hleads, hraises⟩ := hb
  exact ⟨c, .head h hleads, hraises⟩

end Activity

/-! ## Errors -/

namespace Run

variable {α β : Type} {e : RuntimeError} {m : Machine}

/-- A sequence fails because its first part does, or because that has a result and the second part
fails. -/
theorem error?_bind {r : Run α} {f : α → Run β} (h : ((r >>= f) m).error? = some e) :
    (r m).error? = some e ∨ ∃ a m₁, r m = .ok a m₁ ∧ (f a m₁).error? = some e := by
  rw [bind_apply] at h
  cases hr : r m with
  | ok a m₁ => exact .inr ⟨a, m₁, rfl, by rwa [hr] at h⟩
  | failed e' m₁ => exact .inl (by rwa [hr] at h)
  | outOfFuel => rw [hr] at h; cases h

/-- A run in another scope fails as it does there. -/
theorem error?_within (scope : ScopeId) (r : Run α) (m : Machine) :
    (within scope r m).error? = (r (m.inScope scope)).error? := by
  rw [within_apply]
  change _ = (r { m with scope }).error?
  cases r { m with scope } <;> rfl

theorem ofExcept_error? {x : Except RuntimeError α} (h : (ofExcept x m).error? = some e) :
    x = .error e := by
  cases x with
  | ok a => cases h
  | error e' => cases h; rfl

theorem ofExcept_ok {x : Except RuntimeError α} {a : α} {m₁ : Machine}
    (h : ofExcept x m = .ok a m₁) : x = .ok a ∧ m₁ = m := by
  cases x with
  | ok b => cases h; exact ⟨rfl, rfl⟩
  | error e => cases h

/-- A name that cannot be read is one that the store does not find. -/
theorem get_error? {name : Token} (h : (get name m).error? = some e) :
    m.store.get m.scope name = .error e := by
  simp only [get] at h
  split at h
  · cases h
  · rename_i heq
    cases h
    exact heq

theorem assign_error? {name : Token} {v : Value} (h : (assign name v m).error? = some e) :
    m.store.binder m.scope name = .error e := by
  simp only [assign] at h
  split at h
  · cases h
  · rename_i heq
    cases h
    exact heq

/-- A declaration fails only because its name is taken. -/
theorem define_error? {scope : ScopeId} {name : Token} {v : Value}
    (h : (define scope name v m).error? = some e) : m.store.checkFree scope name = .error e := by
  simp only [define] at h
  split at h
  · cases h
  · rename_i heq
    cases h
    exact heq

end Run

section
variable {k : Nat}

open Activity

mutual

/-- An error in an expression is its own, or that of a part of it or of a call. -/
theorem evaluate_traces (hcall : ∀ c args m e, (call k c args m).error? = some e →
    Traces ⟨k, .call c args, m⟩ e) : (x : Expr) → (m : Machine) → (e : RuntimeError) →
    (evaluate (call k) x m).error? = some e → Traces ⟨k, .evaluate x, m⟩ e
  | .literal value, m, e, h => by
    rw [evaluate] at h
    cases h
  | .var name, m, e, h => by
    rw [evaluate] at h
    exact .here (.get (Run.get_error? h))
  | .assign name x, m, e, h => by
    rw [evaluate] at h
    rcases Run.error?_bind h with hx | ⟨v, m₁, hv, h⟩
    · exact (evaluate_traces hcall x m e hx).of_starts .assigned
    rcases Run.error?_bind h with h | ⟨_, _, _, h⟩
    · exact .here (.assign hv (Run.assign_error? h))
    · cases h
  | .unary op x, m, e, h => by
    rw [evaluate] at h
    rcases Run.error?_bind h with hx | ⟨v, m₁, hv, h⟩
    · exact (evaluate_traces hcall x m e hx).of_starts .operand
    · exact .here (.unary hv (Run.ofExcept_error? h))
  | .binary l op r, m, e, h => by
    rw [evaluate] at h
    rcases Run.error?_bind h with hl | ⟨x, m₁, hx, h⟩
    · exact (evaluate_traces hcall l m e hl).of_starts .binaryLeft
    rcases Run.error?_bind h with hr | ⟨y, m₂, hy, h⟩
    · exact (evaluate_traces hcall r m₁ e hr).of_starts (.binaryRight hx)
    · exact .here (.binary hx hy (Run.ofExcept_error? h))
  -- The right operand is started only if the left one does not decide.
  | .logical l op r, m, e, h => by
    rw [evaluate] at h
    rcases Run.error?_bind h with hl | ⟨x, m₁, hx, h⟩
    · exact (evaluate_traces hcall l m e hl).of_starts .logicalLeft
    rcases Run.error?_bind h with h | ⟨decided, m₂, hdecided, h⟩
    · exact .here (.logical hx (Run.ofExcept_error? h))
    obtain ⟨hop, rfl⟩ := Run.ofExcept_ok hdecided
    cases decided with
    | true => cases h
    | false => exact (evaluate_traces hcall r m₂ e h).of_starts (.logicalRight hx hop)
  | .group x, m, e, h => by
    rw [evaluate] at h
    exact (evaluate_traces hcall x m e h).of_starts .grouped
  -- The callee, the arguments and what is called are started in this order, each in the machine
  -- that the one before has left.
  | .call x paren args, m, e, h => by
    rw [evaluate] at h
    rcases Run.error?_bind h with hx | ⟨f, m₁, hf, h⟩
    · exact (evaluate_traces hcall x m e hx).of_starts .callee
    rcases Run.error?_bind h with hargs | ⟨vs, m₂, hvs, h⟩
    · exact (evaluateAll_traces hcall args m₁ e hargs).of_starts (.arguments hf)
    rcases Run.error?_bind h with h | ⟨c, m₃, hc, hrest⟩
    · exact .here (.callee hf hvs (Run.ofExcept_error? h))
    obtain ⟨hcallee, rfl⟩ := Run.ofExcept_ok hc
    exact (hcall c vs _ e hrest).of_starts (.called hf hvs hcallee)

/-- Expressions are evaluated from left to right, up to the first error. -/
theorem evaluateAll_traces (hcall : ∀ c args m e, (call k c args m).error? = some e →
    Traces ⟨k, .call c args, m⟩ e) : (xs : List Expr) → (m : Machine) → (e : RuntimeError) →
    (evaluateAll (call k) xs m).error? = some e → Traces ⟨k, .evaluateAll xs, m⟩ e
  | [], m, e, h => by
    rw [evaluateAll] at h
    cases h
  | x :: xs, m, e, h => by
    rw [evaluateAll] at h
    rcases Run.error?_bind h with hx | ⟨v, m₁, hv, h⟩
    · exact (evaluate_traces hcall x m e hx).of_starts .firstExpr
    rcases Run.error?_bind h with hxs | ⟨vs, m₂, _, h⟩
    · exact (evaluateAll_traces hcall xs m₁ e hxs).of_starts (.otherExprs hv)
    · cases h

end

/-- The error of a loop is raised in one of its rounds, which the rounds before it lead to. -/
theorem repeatWhile_traces {cond : Expr} {s : Stmt}
    (hcond : ∀ m e, (evaluate (call k) cond m).error? = some e → Traces ⟨k, .evaluate cond, m⟩ e)
    (hbody : ∀ m e, (execute (call k) k s m).error? = some e → Traces ⟨k, .execute s, m⟩ e)
    (rounds : Nat) (m : Machine) (e : RuntimeError)
    (h : (repeatWhile (evaluate (call k) cond) (execute (call k) k s) rounds m).error? = some e) :
    Traces ⟨k, .execute (.loop cond s), m⟩ e := by
  induction rounds generalizing m with
  | zero => cases h
  | succ rounds ih =>
    rw [repeatWhile] at h
    rcases Run.error?_bind h with h | ⟨v, m₁, hv, h⟩
    · exact (hcond m e h).of_starts .loopCondition
    split at h
    · rename_i htruthy
      rcases Run.error?_bind h with h | ⟨flow, m₂, hflow, h⟩
      · exact (hbody m₁ e h).of_starts (.loopBody hv htruthy)
      cases flow with
      | next => exact (ih m₂ h).of_starts (.loopAgain hv htruthy hflow)
      | returned v => cases h
    · cases h

mutual

/-- An error in a statement is its own, or that of a part of it. -/
theorem execute_traces (hcall : ∀ c args m e, (call k c args m).error? = some e →
    Traces ⟨k, .call c args, m⟩ e) : (s : Stmt) → (m : Machine) → (e : RuntimeError) →
    (execute (call k) k s m).error? = some e → Traces ⟨k, .execute s, m⟩ e
  | .expr x, m, e, h => by
    rw [execute] at h
    rcases Run.error?_bind h with h | ⟨_, _, _, h⟩
    · exact (evaluate_traces hcall x m e h).of_starts .expr
    · cases h
  | .print x, m, e, h => by
    rw [execute] at h
    rcases Run.error?_bind h with h | ⟨_, _, _, h⟩
    · exact (evaluate_traces hcall x m e h).of_starts .printed
    · cases h
  | .var name initializer, m, e, h => by
    rw [execute] at h
    rcases Run.error?_bind h with h | ⟨v, m₁, hv, h⟩
    · cases initializer with
      | none => cases h
      | some x => exact (evaluate_traces hcall x m e h).of_starts .initializer
    rcases Run.error?_bind h with h | ⟨scope, m₂, hscope, h⟩
    · cases h
    cases hscope
    rcases Run.error?_bind h with h | ⟨_, _, _, h⟩
    · exact .here (.var hv (Run.define_error? h))
    · cases h
  -- Finding and opening scopes cannot fail, so that the error is one of the body.
  | .block body, m, e, h => by
    rw [execute] at h
    rcases Run.error?_bind h with h | ⟨scope, m₁, hscope, h⟩
    · cases h
    cases hscope
    rcases Run.error?_bind h with h | ⟨id, m₁, hid, h⟩
    · cases h
    cases hid
    rw [Run.error?_within] at h
    exact (executeAll_traces hcall body _ e h).of_starts .block
  | .branch cond s none, m, e, h => by
    rw [execute] at h
    rcases Run.error?_bind h with h | ⟨v, m₁, hv, h⟩
    · exact (evaluate_traces hcall cond m e h).of_starts .condition
    split at h
    · rename_i htruthy
      exact (execute_traces hcall s m₁ e h).of_starts (.thenBranch hv htruthy)
    · cases h
  | .branch cond s (some s'), m, e, h => by
    rw [execute] at h
    rcases Run.error?_bind h with h | ⟨v, m₁, hv, h⟩
    · exact (evaluate_traces hcall cond m e h).of_starts .condition
    split at h
    · rename_i htruthy
      exact (execute_traces hcall s m₁ e h).of_starts (.thenBranch hv htruthy)
    · rename_i hfalsy
      exact (execute_traces hcall s' m₁ e h).of_starts (.elseBranch hv hfalsy)
  | .loop cond s, m, e, h => by
    rw [execute] at h
    exact repeatWhile_traces (evaluate_traces hcall cond) (execute_traces hcall s) k m e h
  | .function name params body, m, e, h => by
    rw [execute] at h
    rcases Run.error?_bind h with h | ⟨scope, m₁, hscope, h⟩
    · cases h
    cases hscope
    rcases Run.error?_bind h with h | ⟨_, _, _, h⟩
    · exact .here (.function (Run.define_error? h))
    · cases h
  | .ret keyword value, m, e, h => by
    rw [execute] at h
    rcases Run.error?_bind h with h | ⟨_, _, _, h⟩
    · cases value with
      | none => cases h
      | some x => exact (evaluate_traces hcall x m e h).of_starts .returned
    · cases h

/-- Behind a return no statement is started. -/
theorem executeAll_traces (hcall : ∀ c args m e, (call k c args m).error? = some e →
    Traces ⟨k, .call c args, m⟩ e) : (ss : List Stmt) → (m : Machine) → (e : RuntimeError) →
    (executeAll (call k) k ss m).error? = some e → Traces ⟨k, .executeAll ss, m⟩ e
  | [], m, e, h => by
    rw [executeAll] at h
    cases h
  | s :: ss, m, e, h => by
    rw [executeAll] at h
    rcases Run.error?_bind h with h | ⟨flow, m₁, hflow, h⟩
    · exact (execute_traces hcall s m e h).of_starts .firstStmt
    cases flow with
    | next => exact (executeAll_traces hcall ss m₁ e h).of_starts (.otherStmts hflow)
    | returned v => cases h

end

end

/-- No native fails. -/
theorem nativeCall_error? (f : Native) (args : List Value) (m : Machine) :
    (f.call args m).error? = none := by
  cases f with
  | clock => rfl
  | write =>
    simp only [Native.call, Run.bind_apply, forM_write_eq]
    rfl
  | writeLine => rfl

/-- An error in a call is that of its body, or of its parameters. Native functions have none. -/
theorem call_traces (k : Nat) (c : Callable) (args : List Value) (m : Machine) (e : RuntimeError)
    (h : (call k c args m).error? = some e) : Activity.Traces ⟨k, .call c args, m⟩ e := by
  induction k generalizing c args m e with
  | zero =>
    cases c with
    | native f => simp [call, nativeCall_error?] at h
    | function f => cases h
  | succ k ih =>
    cases c with
    | native f => simp [call, nativeCall_error?] at h
    | function f =>
      rw [call] at h
      rcases Run.error?_bind h with h | ⟨id, m₁, hid, h⟩
      · cases h
      cases hid
      rcases Run.error?_bind h with h | ⟨_, m₁, hm₁, h⟩
      · exact .here (.params h)
      rcases Run.error?_bind h with h | ⟨flow, m₂, _, h⟩
      · rw [Run.error?_within] at h
        exact (executeAll_traces ih f.body _ e h).of_starts (.body hm₁)
      · cases flow <;> cases h

/-! ## Policies -/

/-- What a run with a result keeps. -/
theorem Run.Keeps.of_ok {P : Policy} {α : Type} {Q : α → Prop} {r : Run α} (h : r.Keeps P Q)
    {m after : Machine} {a : α} (hm : m.store.Obeys P) (hr : r m = .ok a after) :
    Q a ∧ after.store.Obeys P := by
  obtain ⟨hresult, hstore⟩ := h m hm
  exact ⟨hresult a after hr, hstore after (by rw [hr]; rfl)⟩

/-- All trees and values in the task obey the policy. -/
def Task.Obeys (P : Policy) : Task → Prop
  | .evaluate e => e.Obeys P
  | .evaluateAll es => Expr.ObeysAll P es
  | .execute s => s.Obeys P
  | .executeAll ss => Stmt.ObeysAll P ss
  | .call c args => c.Obeys P ∧ ∀ v ∈ args, v.Obeys P

namespace Activity

/-- The task obeys the policy, and so does all that is bound in the machine in which it starts. -/
structure Obeys (P : Policy) (a : Activity) : Prop where
  task : a.task.Obeys P
  store : a.machine.store.Obeys P

variable {P : Policy} {a b : Activity}

/-- The trees of an activity are parts of the tree of the one that starts it, or come out of a
function that was found in a scope. -/
theorem Obeys.of_starts (ha : a.Obeys P) (h : a.Starts b) : b.Obeys P := by
  have hcall : ∀ k c args, c.Obeys P → (∀ v ∈ args, v.Obeys P) →
      (call k c args).Keeps P (Value.Obeys P) := fun k _ _ => call_keeps k
  obtain ⟨htask, hstore⟩ := ha
  cases h with
  | assigned => exact ⟨htask.2, hstore⟩
  | operand => exact ⟨htask.2, hstore⟩
  | binaryLeft => exact ⟨htask.1, hstore⟩
  | binaryRight hl => exact ⟨htask.2.2, ((evaluate_keeps (hcall _) _ htask.1).of_ok hstore hl).2⟩
  | logicalLeft => exact ⟨htask.1, hstore⟩
  | logicalRight hl _ =>
    exact ⟨htask.2.2, ((evaluate_keeps (hcall _) _ htask.1).of_ok hstore hl).2⟩
  | grouped => exact ⟨htask, hstore⟩
  | callee => exact ⟨htask.1, hstore⟩
  | arguments he => exact ⟨htask.2.2, ((evaluate_keeps (hcall _) _ htask.1).of_ok hstore he).2⟩
  | called he hargs hc =>
    -- What is called is what was evaluated: the policy is carried to the function by the values.
    obtain ⟨hf, hstore₁⟩ := (evaluate_keeps (hcall _) _ htask.1).of_ok hstore he
    obtain ⟨hvs, hstore₂⟩ := (evaluateAll_keeps (hcall _) _ htask.2.2).of_ok hstore₁ hargs
    exact ⟨⟨Operator.callee_obeys hf hc, hvs⟩, hstore₂⟩
  | firstExpr => exact ⟨htask.1, hstore⟩
  | otherExprs he => exact ⟨htask.2, ((evaluate_keeps (hcall _) _ htask.1).of_ok hstore he).2⟩
  | expr => exact ⟨htask, hstore⟩
  | printed => exact ⟨htask, hstore⟩
  | initializer => exact ⟨htask.2 _ rfl, hstore⟩
  | block => exact ⟨htask, hstore.openScope _⟩
  | @condition _ _ _ s' => cases s' <;> exact ⟨htask.1, hstore⟩
  | @thenBranch _ _ _ s' _ _ _ hcond =>
    cases s' with
    | none => exact ⟨htask.2, ((evaluate_keeps (hcall _) _ htask.1).of_ok hstore hcond).2⟩
    | some s' => exact ⟨htask.2.1, ((evaluate_keeps (hcall _) _ htask.1).of_ok hstore hcond).2⟩
  | elseBranch hcond =>
    exact ⟨htask.2.2, ((evaluate_keeps (hcall _) _ htask.1).of_ok hstore hcond).2⟩
  | loopCondition => exact ⟨htask.1, hstore⟩
  | loopBody hcond =>
    exact ⟨htask.2, ((evaluate_keeps (hcall _) _ htask.1).of_ok hstore hcond).2⟩
  | loopAgain hcond _ hbody =>
    have hstore₁ := ((evaluate_keeps (hcall _) _ htask.1).of_ok hstore hcond).2
    exact ⟨htask, ((execute_keeps (hcall _) _ htask.2).of_ok hstore₁ hbody).2⟩
  | returned => exact ⟨htask _ rfl, hstore⟩
  | firstStmt => exact ⟨htask.1, hstore⟩
  | otherStmts hs => exact ⟨htask.2, ((execute_keeps (hcall _) _ htask.1).of_ok hstore hs).2⟩
  | body hbind =>
    exact ⟨htask.1.2, ((bindParams_keeps _ _ htask.2).of_ok (hstore.openScope _) hbind).2⟩

/-- What an activity obeys is obeyed by all that it leads to. -/
theorem Obeys.of_leads (ha : a.Obeys P) (h : a.Leads b) : b.Obeys P := by
  induction h with
  | refl => exact ha
  | tail _ hstarts ih => exact ih.of_starts hstarts

end Activity

end Treewalk
