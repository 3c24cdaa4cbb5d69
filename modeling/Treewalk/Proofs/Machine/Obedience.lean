import Treewalk.Proofs.Machine.Growth
import Treewalk.Proofs.Policy

/-!
# Policies are kept

If the scopes of a machine and the trees that it runs obey a policy, then so do the values that come
out of the run and the scopes that it leaves: functions get into scopes only through declarations,
and declarations are parts of trees.
-/

namespace Treewalk

def Flow.Obeys (P : Policy) : Flow → Prop
  | .next => True
  | .returned v => v.Obeys P

/-- In a machine whose scopes obey the policy, a result of the run satisfies `Q`, and however the
run ends, the scopes still obey the policy. -/
def Run.Keeps (P : Policy) {α : Type} (Q : α → Prop) (r : Run α) : Prop :=
  ∀ m, m.store.Obeys P →
    (∀ a after, r m = .ok a after → Q a) ∧ ∀ after ∈ (r m).machine?, after.store.Obeys P

namespace Run

variable {P : Policy} {α β : Type} {Q : α → Prop} {R : β → Prop}

/-- A run that leaves the scopes as they are. -/
theorem Keeps.of_same {r : Run α} (hresult : ∀ m a after, r m = .ok a after → Q a)
    (hstore : ∀ m, ∀ after ∈ (r m).machine?, after.store = m.store) : r.Keeps P Q := by
  intro m hm
  refine ⟨hresult m, fun after hafter => ?_⟩
  rw [hstore m after hafter]
  exact hm

theorem Keeps.pure {a : α} (h : Q a) : (pure a : Run α).Keeps P Q :=
  .of_same (fun _ _ _ hok => by cases hok; exact h) fun _ _ hafter => by cases hafter; rfl

theorem Keeps.exhausted : (exhausted : Run α).Keeps P Q :=
  .of_same (fun _ _ _ hok => by cases hok) fun _ _ hafter => by cases hafter

theorem Keeps.ofExcept {x : Except RuntimeError α} (h : ∀ a, x = .ok a → Q a) :
    (ofExcept x).Keeps P Q := by
  cases x with
  | error e => exact .of_same (fun _ _ _ hok => by cases hok) fun _ _ hafter => by cases hafter; rfl
  | ok a => exact .pure (h a rfl)

theorem Keeps.note (e : LogEntry) : (note e).Keeps P fun _ => True :=
  .of_same (fun _ _ _ _ => trivial) fun _ _ hafter => by cases hafter; rfl

theorem Keeps.write (w : Write) : (write w).Keeps P fun _ => True :=
  .of_same (fun _ _ _ _ => trivial) fun _ _ hafter => by cases hafter; rfl

theorem Keeps.readClock : readClock.Keeps P fun _ => True :=
  .of_same (fun _ _ _ _ => trivial) fun _ _ hafter => by cases hafter; rfl

theorem Keeps.currentScope : currentScope.Keeps P fun _ => True :=
  .of_same (fun _ _ _ _ => trivial) fun _ _ hafter => by cases hafter; rfl

/-- The second run starts in scopes that obey the policy, with a result that satisfies `Q`. -/
theorem Keeps.bind {r : Run α} {f : α → Run β} (hr : r.Keeps P Q)
    (hf : ∀ a, Q a → (f a).Keeps P R) : (r >>= f).Keeps P R := by
  intro m hm
  obtain ⟨hresult, hstore⟩ := hr m hm
  rw [bind_apply]
  cases h : r m with
  | ok a mid => exact hf a (hresult a mid h) mid (hstore mid (by rw [h]; rfl))
  -- The second run does not start, and the scopes are those that the first one has left.
  | failed e mid =>
    refine ⟨fun _ _ hok => (by cases hok), fun after hafter => ?_⟩
    cases hafter
    exact hstore mid (by rw [h]; rfl)
  | outOfFuel => exact ⟨fun _ _ hok => (by cases hok), fun _ hafter => by cases hafter⟩

theorem Keeps.openScope (enclosing : ScopeId) : (openScope enclosing).Keeps P fun _ => True := by
  intro m hm
  refine ⟨fun _ _ _ => trivial, fun after hafter => ?_⟩
  cases hafter
  exact hm.openScope (some enclosing)

/-- Which scope is current has no influence on what the scopes hold. -/
theorem Keeps.within {r : Run α} (scope : ScopeId) (hr : r.Keeps P Q) :
    (within scope r).Keeps P Q := by
  intro m hm
  obtain ⟨hresult, hstore⟩ := hr { m with scope } hm
  rw [within_apply]
  cases h : r { m with scope } with
  | ok a mid =>
    refine ⟨fun b after hok => ?_, fun after hafter => ?_⟩
    · cases hok
      exact hresult a mid h
    · cases hafter
      exact hstore mid (by rw [h]; rfl)
  | failed e mid =>
    refine ⟨fun _ _ hok => (by cases hok), fun after hafter => ?_⟩
    cases hafter
    exact hstore mid (by rw [h]; rfl)
  | outOfFuel => exact ⟨fun _ _ hok => (by cases hok), fun _ hafter => by cases hafter⟩

/-- What is read was bound, and so obeys the policy. -/
theorem Keeps.get (name : Token) : (get name).Keeps P (Value.Obeys P) := by
  intro m hm
  simp only [Run.get, Store.get]
  cases h : m.store.lookup? m.scope name.lexeme with
  | none => exact ⟨fun _ _ hok => (by cases hok), fun _ hafter => by cases hafter; exact hm⟩
  | some v =>
    refine ⟨fun a after hok => ?_, fun _ hafter => by cases hafter; exact hm⟩
    cases hok
    exact hm.lookup? h

/-- What is bound obeys the policy, so that scopes still do. -/
theorem Keeps.define (scope : ScopeId) (name : Token) {v : Value} (hv : v.Obeys P) :
    (define scope name v).Keeps P fun _ => True := by
  intro m hm
  refine ⟨fun _ _ _ => trivial, fun after hafter => ?_⟩
  simp only [Run.define] at hafter
  split at hafter
  · cases hafter
    exact hm.modify fun s hs => hs.insert hv
  · cases hafter
    exact hm

theorem Keeps.assign (name : Token) {v : Value} (hv : v.Obeys P) :
    (assign name v).Keeps P fun _ => True := by
  intro m hm
  refine ⟨fun _ _ _ => trivial, fun after hafter => ?_⟩
  simp only [Run.assign] at hafter
  split at hafter
  · cases hafter
    exact hm.modify fun s hs => hs.replace hv
  · cases hafter
    exact hm

end Run

/-! ## Operators -/

namespace Operator

variable {P : Policy} {op paren : Token} {l r v w : Value} {n : Nat} {c : Callable}

/-- An operator in front gives a number or a truth value, about which a policy says nothing. -/
theorem unary_obeys (h : unary op v = .ok w) : w.Obeys P := by
  unfold unary at h
  split at h
  · split at h
    · cases h; trivial
    · cases h
  · cases h; trivial
  · cases h

theorem add_obeys (h : add op l r = .ok w) : w.Obeys P := by
  unfold add at h
  split at h
  · cases h; trivial
  · cases h; trivial
  · cases h

/-- An operation on numbers gives a literal. -/
theorem onNumbers_obeys {operation? : TokenKind → Option (Float → Float → Literal)}
    (h : onNumbers operation? op l r = .ok w) : w.Obeys P := by
  unfold onNumbers at h
  split at h
  · split at h
    · cases h
      exact Value.ofLiteral_obeys P _
    · cases h
  · cases h

/-- No operator makes a function. -/
theorem binary_obeys (h : binary op l r = .ok w) : w.Obeys P := by
  unfold binary at h
  split at h
  case h_1 => exact add_obeys h
  case h_9 | h_10 => cases h; trivial
  case h_11 => cases h
  all_goals exact onNumbers_obeys h

/-- What is called is the value that was found. -/
theorem callee_obeys (hv : v.Obeys P) (h : callee paren v n = .ok c) : c.Obeys P := by
  unfold callee at h
  cases v with
  | callable c' =>
    simp only [Value.callable?] at h
    split at h
    · cases h
      exact hv
    · cases h
  | _ => cases h

end Operator

/-! ## Trees -/

section
variable {P : Policy} {apply : Callable → List Value → Run Value}

mutual

/-- Evaluating a tree that obeys the policy gives a value that does. Functions are not made here,
but read from scopes and passed on. -/
theorem evaluate_keeps (h : ∀ c args, c.Obeys P → (∀ v ∈ args, v.Obeys P) →
    (apply c args).Keeps P (Value.Obeys P)) :
    (e : Expr) → e.Obeys P → (evaluate apply e).Keeps P (Value.Obeys P)
  | .literal value, _ => by
    rw [evaluate]
    exact .pure (Value.ofLiteral_obeys P value)
  | .var name, _ => by rw [evaluate]; exact .get name
  | .assign name e, he => by
    rw [evaluate]
    exact .bind (evaluate_keeps h e he.2) fun v hv => .bind (.assign name hv) fun _ _ => .pure hv
  | .unary op e, he => by
    rw [evaluate]
    exact .bind (evaluate_keeps h e he.2) fun _ _ => .ofExcept fun _ => Operator.unary_obeys
  | .binary l op r, he => by
    rw [evaluate]
    exact .bind (evaluate_keeps h l he.1) fun _ _ => .bind (evaluate_keeps h r he.2.2) fun _ _ =>
      .ofExcept fun _ => Operator.binary_obeys
  -- The result is one of the operands.
  | .logical l op r, he => by
    rw [evaluate]
    refine .bind (evaluate_keeps h l he.1) fun x hx => ?_
    refine .bind (Q := fun _ => True) (.ofExcept fun _ _ => trivial) fun decided _ => ?_
    split
    · exact .pure hx
    · exact evaluate_keeps h r he.2.2
  | .group e, he => by rw [evaluate]; exact evaluate_keeps h e he
  | .call e paren args, he => by
    rw [evaluate]
    refine .bind (evaluate_keeps h e he.1) fun f hf => ?_
    refine .bind (evaluateAll_keeps h args he.2.2) fun vs hvs => ?_
    refine .bind (.ofExcept fun _ => Operator.callee_obeys hf) fun c hc => ?_
    exact .bind (.note _) fun _ _ => h c vs hc hvs

/-- All arguments obey the policy. -/
theorem evaluateAll_keeps (h : ∀ c args, c.Obeys P → (∀ v ∈ args, v.Obeys P) →
    (apply c args).Keeps P (Value.Obeys P)) :
    (es : List Expr) → Expr.ObeysAll P es →
      (evaluateAll apply es).Keeps P fun vs => ∀ v ∈ vs, v.Obeys P
  | [], _ => by rw [evaluateAll]; exact .pure (by simp)
  | e :: es, hes => by
    rw [evaluateAll]
    exact .bind (evaluate_keeps h e hes.1) fun v hv =>
      .bind (evaluateAll_keeps h es hes.2) fun vs hvs => .pure (by simpa using ⟨hv, hvs⟩)

end

theorem evaluateOption_keeps (h : ∀ c args, c.Obeys P → (∀ v ∈ args, v.Obeys P) →
    (apply c args).Keeps P (Value.Obeys P)) {e : Option Expr} (he : Expr.ObeysOption P e) :
    (evaluateOption apply e).Keeps P (Value.Obeys P) := by
  cases e with
  | none => exact .pure trivial
  | some e => exact evaluate_keeps h e (he e rfl)

/-- A loop passes on what its body returns. -/
theorem repeatWhile_keeps {cond : Run Value} {body : Run Flow} {Q : Value → Prop}
    (hcond : cond.Keeps P Q) (hbody : body.Keeps P (Flow.Obeys P)) (fuel : Nat) :
    (repeatWhile cond body fuel).Keeps P (Flow.Obeys P) := by
  induction fuel with
  | zero => exact .exhausted
  | succ fuel ih =>
    refine .bind hcond fun v _ => ?_
    split
    · refine .bind hbody fun flow hflow => ?_
      cases flow with
      | next => exact ih
      | returned v => exact .pure hflow
    · exact .pure trivial

mutual

/-- Executing a tree that obeys the policy keeps the scopes. -/
theorem execute_keeps (h : ∀ c args, c.Obeys P → (∀ v ∈ args, v.Obeys P) →
    (apply c args).Keeps P (Value.Obeys P)) {fuel : Nat} :
    (s : Stmt) → s.Obeys P → (execute apply fuel s).Keeps P (Flow.Obeys P)
  | .expr e, hs => by
    rw [execute]
    exact .bind (evaluate_keeps h e hs) fun _ _ => .pure trivial
  | .print e, hs => by
    rw [execute]
    exact .bind (evaluate_keeps h e hs) fun _ _ => .bind (.write _) fun _ _ => .pure trivial
  | .var name initializer, hs => by
    rw [execute]
    exact .bind (evaluateOption_keeps h hs.2) fun v hv => .bind .currentScope fun scope _ =>
      .bind (.define scope name hv) fun _ _ => .pure trivial
  | .block body, hs => by
    rw [execute]
    exact .bind .currentScope fun scope _ => .bind (.openScope scope) fun id _ =>
      .within id (executeAll_keeps h body hs)
  | .branch cond thenBranch none, hs => by
    rw [execute]
    refine .bind (evaluate_keeps h cond hs.1) fun v _ => ?_
    split
    · exact execute_keeps h thenBranch hs.2
    · exact .pure trivial
  | .branch cond thenBranch (some elseBranch), hs => by
    rw [execute]
    refine .bind (evaluate_keeps h cond hs.1) fun v _ => ?_
    split
    · exact execute_keeps h thenBranch hs.2.1
    · exact execute_keeps h elseBranch hs.2.2
  | .loop cond body, hs => by
    rw [execute]
    exact repeatWhile_keeps (evaluate_keeps h cond hs.1) (execute_keeps h body hs.2) fuel
  | .function name params body, hs => by
    rw [execute]
    -- This is where functions come from: the value is the declaration in its scope.
    exact .bind .currentScope fun scope _ => .bind (.define scope name hs.2) fun _ _ =>
      .pure trivial
  | .ret keyword value, hs => by
    rw [execute]
    exact .bind (evaluateOption_keeps h hs) fun v hv => .pure hv

/-- Statements one after the other, up to a return. -/
theorem executeAll_keeps (h : ∀ c args, c.Obeys P → (∀ v ∈ args, v.Obeys P) →
    (apply c args).Keeps P (Value.Obeys P)) {fuel : Nat} :
    (ss : List Stmt) → Stmt.ObeysAll P ss → (executeAll apply fuel ss).Keeps P (Flow.Obeys P)
  | [], _ => by rw [executeAll]; exact .pure trivial
  | s :: rest, hss => by
    rw [executeAll]
    refine .bind (execute_keeps h s hss.1) fun flow hflow => ?_
    cases flow with
    | next => exact executeAll_keeps h rest hss.2
    | returned v => exact .pure hflow

end

end

/-! ## Calls -/

section
variable {P : Policy}

/-- What native functions give is no function. -/
theorem nativeCall_keeps (f : Native) (args : List Value) :
    (f.call args).Keeps P (Value.Obeys P) := by
  cases f with
  | clock => exact .bind .readClock fun _ _ => .pure trivial
  | write =>
    refine .bind (Q := fun _ => True) ?_ fun _ _ => .pure trivial
    induction args with
    | nil => exact .pure trivial
    | cons v vs ih => exact .bind (.write _) fun _ _ => ih
  | writeLine => exact .bind (.write _) fun _ _ => .pure trivial

/-- Arguments become bindings. -/
theorem bindParams_keeps (scope : ScopeId) (params : List Token) {args : List Value}
    (h : ∀ v ∈ args, v.Obeys P) : (bindParams scope params args).Keeps P fun _ => True := by
  induction params generalizing args with
  | nil => exact .pure trivial
  | cons p ps ih =>
    cases args with
    | nil => exact .pure trivial
    | cons v vs =>
      refine .bind (.define scope p (h v List.mem_cons_self)) fun _ _ => ih fun w hw => ?_
      exact h w (List.mem_cons_of_mem v hw)

/-- A call executes a body that obeys the policy, because the function does. The induction is on the
fuel. -/
theorem call_keeps (fuel : Nat) {c : Callable} {args : List Value} (hc : c.Obeys P)
    (hargs : ∀ v ∈ args, v.Obeys P) : (call fuel c args).Keeps P (Value.Obeys P) := by
  induction fuel generalizing c args with
  | zero =>
    cases c with
    | native f => exact nativeCall_keeps f args
    | function f => exact .exhausted
  | succ fuel ih =>
    cases c with
    | native f => exact nativeCall_keeps f args
    | function f =>
      refine .bind (.openScope f.closure) fun id _ => ?_
      refine .bind (bindParams_keeps id f.params hargs) fun _ _ => ?_
      have hbody : (executeAll (call fuel) fuel f.body).Keeps P (Flow.Obeys P) :=
        executeAll_keeps (fun c args => ih) f.body hc.2
      refine .bind (.within id hbody) fun flow hflow => ?_
      cases flow with
      | next => exact .pure trivial
      | returned v => exact .pure hflow

end

end Treewalk
