import Treewalk.Proofs.Machine.Growth
import Treewalk.Proofs.Views.Store
import Treewalk.Session

/-!
# Parentheses only group

The parentheses of a tree can be left out, in functions that are stored in scopes too. The machine
that runs the tree without them goes through the same machines, up to the parentheses in stored
functions: `Run.Ungroups` says so of two runs, and one induction over trees, with another one over
fuel for calls, shows it of all that is executed.
-/

namespace Treewalk

/-! ## Trees and values without parentheses -/

mutual

/-- The expression without its parentheses. -/
def Expr.ungrouped : Expr → Expr
  | .literal value => .literal value
  | .var name => .var name
  | .assign name value => .assign name value.ungrouped
  | .unary op operand => .unary op operand.ungrouped
  | .binary lhs op rhs => .binary lhs.ungrouped op rhs.ungrouped
  | .logical lhs op rhs => .logical lhs.ungrouped op rhs.ungrouped
  | .group inner => inner.ungrouped
  | .call callee paren args => .call callee.ungrouped paren (Expr.ungroupedAll args)

def Expr.ungroupedAll : List Expr → List Expr
  | [] => []
  | e :: es => e.ungrouped :: Expr.ungroupedAll es

end

mutual

/-- The statement without parentheses around expressions, in the bodies of functions too. -/
def Stmt.ungrouped : Stmt → Stmt
  | .expr e => .expr e.ungrouped
  | .print e => .print e.ungrouped
  | .var name initializer => .var name (initializer.map Expr.ungrouped)
  | .block body => .block (Stmt.ungroupedAll body)
  | .branch cond thenBranch none => .branch cond.ungrouped thenBranch.ungrouped none
  | .branch cond thenBranch (some elseBranch) =>
    .branch cond.ungrouped thenBranch.ungrouped (some elseBranch.ungrouped)
  | .loop cond body => .loop cond.ungrouped body.ungrouped
  | .function name params body => .function name params (Stmt.ungroupedAll body)
  | .ret keyword value => .ret keyword (value.map Expr.ungrouped)

def Stmt.ungroupedAll : List Stmt → List Stmt
  | [] => []
  | s :: ss => s.ungrouped :: Stmt.ungroupedAll ss

end

def Callable.ungrouped : Callable → Callable
  | .native f => .native f
  | .function f => .function { f with body := Stmt.ungroupedAll f.body }

def Value.ungrouped : Value → Value
  | .callable c => .callable c.ungrouped
  | v => v

def Scope.ungrouped (s : Scope) : Scope :=
  { s with bindings := s.bindings.map fun b => (b.1, b.2.ungrouped) }

/-- The store with all functions in it without parentheses. -/
def Store.ungrouped (st : Store) : Store :=
  ⟨st.scopes.map Scope.ungrouped⟩

theorem Callable.ungrouped_arity (c : Callable) : c.ungrouped.arity = c.arity := by
  cases c <;> rfl

theorem Callable.ungrouped_text (c : Callable) : c.ungrouped.text = c.text := by
  cases c <;> rfl

/-- Functions are compared by their names and scopes, in which there are no parentheses. -/
theorem Callable.ungrouped_same (c d : Callable) : c.ungrouped.same d.ungrouped = c.same d := by
  cases c <;> cases d <;> rfl

namespace Value

@[simp] theorem ungrouped_ofLiteral (value : Literal) :
    (ofLiteral value).ungrouped = ofLiteral value := by
  cases value <;> rfl

@[simp] theorem ungrouped_truthy (v : Value) : v.ungrouped.truthy = v.truthy := by
  cases v <;> rfl

@[simp] theorem ungrouped_number? (v : Value) : v.ungrouped.number? = v.number? := by
  cases v <;> rfl

@[simp] theorem ungrouped_text (v : Value) : v.ungrouped.text = v.text := by
  cases v with
  | callable c => exact c.ungrouped_text
  | _ => rfl

/-- Whether functions are the same does not depend on parentheses in them. -/
@[simp] theorem ungrouped_same (v w : Value) : v.ungrouped.same w.ungrouped = v.same w := by
  cases v with
  | callable c =>
    cases w with
    | callable d => exact c.ungrouped_same d
    | _ => rfl
  | _ => cases w <;> rfl

end Value

/-! ## Operators -/

namespace Operator

variable (op paren : Token) (l r v : Value)

/-- An operator in front gives no function, so that there are no parentheses to leave out of its
result. -/
theorem unary_ungrouped : unary op v.ungrouped = (unary op v).map Value.ungrouped := by
  unfold unary
  simp only [Value.ungrouped_number?, Value.ungrouped_truthy]
  split
  · split <;> rfl
  · rfl
  · rfl

theorem add_ungrouped : add op l.ungrouped r.ungrouped = (add op l r).map Value.ungrouped := by
  cases l <;> cases r <;> rfl

/-- An operation on numbers sees no parentheses. -/
theorem onNumbers_ungrouped (operation? : TokenKind → Option (Float → Float → Literal)) :
    onNumbers operation? op l.ungrouped r.ungrouped =
      (onNumbers operation? op l r).map Value.ungrouped := by
  unfold onNumbers
  simp only [Value.ungrouped_number?]
  split
  · split
    · exact congrArg Except.ok (Value.ungrouped_ofLiteral _).symm
    · rfl
  · rfl

/-- No binary operator looks into the body of a function. -/
theorem binary_ungrouped :
    binary op l.ungrouped r.ungrouped = (binary op l r).map Value.ungrouped := by
  unfold binary
  simp only [Value.ungrouped_same]
  split
  case h_1 => exact add_ungrouped op l r
  case h_9 | h_10 | h_11 => rfl
  all_goals exact onNumbers_ungrouped op l r _

/-- Whether the left operand decides depends on its truth. -/
theorem decided_ungrouped : decided op v.ungrouped = (decided op v).map id := by
  unfold decided
  rw [Value.ungrouped_truthy]
  split <;> rfl

/-- What is called is the function without its parentheses. -/
theorem callee_ungrouped (args : Nat) :
    callee paren v.ungrouped args = (callee paren v args).map Callable.ungrouped := by
  cases v with
  | callable c =>
    simp only [callee, Value.ungrouped, Value.callable?, Callable.ungrouped_arity]
    split <;> rfl
  | _ => rfl

end Operator

/-! ## Stores -/

namespace Scope

variable (s : Scope) (name : String) (v : Value)

/-- A name is bound to the value without parentheses. -/
theorem ungrouped_get? : s.ungrouped.get? name = (s.get? name).map Value.ungrouped := by
  obtain ⟨bindings, enclosing⟩ := s
  simp only [get?, ungrouped]
  induction bindings with
  | nil => rfl
  | cons b bindings ih =>
    obtain ⟨x, v⟩ := b
    simp only [List.map_cons, List.lookup_cons]
    cases name == x with
    | true => rfl
    | false => exact ih

theorem ungrouped_binds : s.ungrouped.binds name = s.binds name := by
  simp only [binds, ungrouped_get?, Option.isSome_map]

theorem ungrouped_insert : (s.insert name v).ungrouped = s.ungrouped.insert name v.ungrouped :=
  rfl

theorem ungrouped_replace :
    (s.replace name v).ungrouped = s.ungrouped.replace name v.ungrouped := by
  simp only [ungrouped, replace, List.map_map]
  congr 1
  refine List.map_congr_left fun b _ => ?_
  simp only [Function.comp_apply]
  split <;> rfl

end Scope

namespace Store

theorem scope?_ungrouped (st : Store) (i : ScopeId) :
    st.ungrouped.scope? i = (st.scope? i).map Scope.ungrouped :=
  Array.getElem?_map

theorem size_ungrouped (st : Store) : st.ungrouped.scopes.size = st.scopes.size :=
  Array.size_map

theorem ungrouped_openScope (st : Store) (o : Option ScopeId) :
    (st.openScope o).2.ungrouped = (st.ungrouped.openScope o).2 := by
  refine ext_scope? fun i => ?_
  rw [scope?_ungrouped, scope?_openScope, scope?_openScope, size_ungrouped, scope?_ungrouped]
  split <;> rfl

/-- What commutes with leaving out parentheses in one scope does so in the store. -/
theorem ungrouped_modify {f f' : Scope → Scope} (hf : ∀ s, (f s).ungrouped = f' s.ungrouped)
    (st : Store) (i : ScopeId) : (st.modify i f).ungrouped = st.ungrouped.modify i f' := by
  refine ext_scope? fun j => ?_
  rw [scope?_ungrouped, scope?_modify, scope?_modify, scope?_ungrouped]
  split
  · cases st.scope? j with
    | none => rfl
    | some s => exact congrArg some (hf s)
  · rfl

theorem binds_ungrouped (st : Store) (i : ScopeId) (name : String) :
    st.ungrouped.binds i name = st.binds i name := by
  simp only [binds, scope?_ungrouped]
  cases st.scope? i with
  | none => rfl
  | some s => exact s.ungrouped_binds name

/-- A search through the scopes goes the same way, because scopes lie in each other as before. -/
theorem nearest?_ungrouped {α β : Type} {g : α → β} {find : ScopeId → Scope → Option α}
    {find' : ScopeId → Scope → Option β} (hfind : ∀ i s, find' i s.ungrouped = (find i s).map g)
    (st : Store) (i : ScopeId) :
    st.ungrouped.nearest? find' i = (st.nearest? find i).map g := by
  -- Every scope lies in an older one, so that the induction is on the number of the scope.
  induction i using Nat.strongRecOn with
  | ind i ih =>
    rw [nearest?, nearest?.eq_def st, scope?_ungrouped]
    cases st.scope? i with
    | none => rfl
    | some s =>
      have hlink : s.ungrouped.enclosing = s.enclosing := rfl
      simp only [Option.map_some, hfind, hlink]
      cases find i s with
      | some a => rfl
      | none =>
        cases s.enclosing with
        | none => rfl
        | some o =>
          simp only [Option.map_none]
          split
          · rename_i hlt
            exact ih o hlt
          · rfl

theorem lookup?_ungrouped (st : Store) (i : ScopeId) (name : String) :
    st.ungrouped.lookup? i name = (st.lookup? i name).map Value.ungrouped :=
  st.nearest?_ungrouped (fun _ s => s.ungrouped_get? name) i

theorem binder?_ungrouped (st : Store) (i : ScopeId) (name : String) :
    st.ungrouped.binder? i name = st.binder? i name := by
  refine (st.nearest?_ungrouped (g := id) (fun j s => ?_) i).trans (congrFun Option.map_id _)
  rw [s.ungrouped_binds, Option.map_id]
  rfl

end Store

/-! ## Runs -/

/-- The second machine is the first one with all stored functions without parentheses. Logs do not
matter. -/
structure Machine.Ungroups (m m' : Machine) : Prop where
  store : m'.store = m.store.ungrouped
  scope : m'.scope = m.scope
  clock : m'.clock = m.clock
  written : m'.written = m.written

/-- The outcomes are of one kind. Errors are the same, a result of the second outcome is what `g`
makes of that of the first, and the machines left correspond. -/
inductive Outcome.Ungroups {α β : Type} (g : α → β) : Outcome α → Outcome β → Prop where
  | ok {a m m'} : m.Ungroups m' → Ungroups g (.ok a m) (.ok (g a) m')
  | failed {m m'} (e : RuntimeError) : m.Ungroups m' → Ungroups g (.failed e m) (.failed e m')
  | outOfFuel : Ungroups g .outOfFuel .outOfFuel

/-- From machines that correspond, the runs come to outcomes that correspond. -/
def Run.Ungroups {α β : Type} (g : α → β) (r : Run α) (r' : Run β) : Prop :=
  ∀ m m', m.Ungroups m' → (r m).Ungroups g (r' m')

namespace Outcome.Ungroups

variable {α β γ δ : Type} {g : α → β} {h : γ → δ} {o : Outcome α} {o' : Outcome β}

/-- The second run goes on from machines that correspond. -/
theorem bind {f : α → Run γ} {f' : β → Run δ} (ho : o.Ungroups g o')
    (hf : ∀ a, (f a).Ungroups h (f' (g a))) : (o.bind f).Ungroups h (o'.bind f') := by
  cases ho with
  | ok hm => exact hf _ _ _ hm
  | failed e hm => exact .failed e hm
  | outOfFuel => exact .outOfFuel

theorem inScope (ho : o.Ungroups g o') (i : ScopeId) :
    (o.mapMachine fun m => { m with scope := i }).Ungroups g
      (o'.mapMachine fun m => { m with scope := i }) := by
  cases ho with
  | ok hm => exact .ok ⟨hm.store, rfl, hm.clock, hm.written⟩
  | failed e hm => exact .failed e ⟨hm.store, rfl, hm.clock, hm.written⟩
  | outOfFuel => exact .outOfFuel

end Outcome.Ungroups

namespace Run

variable {α β γ δ : Type} {g : α → β} {h : γ → δ}

theorem Ungroups.pure {a : α} {b : β} (hb : b = g a) :
    (Pure.pure a : Run α).Ungroups g (Pure.pure b : Run β) := by
  subst hb
  exact fun _ _ hm => .ok hm

theorem Ungroups.exhausted : (exhausted : Run α).Ungroups g (exhausted : Run β) :=
  fun _ _ _ => .outOfFuel

theorem Ungroups.bind {r : Run α} {r' : Run β} {f : α → Run γ} {f' : β → Run δ}
    (hr : r.Ungroups g r') (hf : ∀ a, (f a).Ungroups h (f' (g a))) :
    (r >>= f).Ungroups h (r' >>= f') :=
  fun m m' hm => (hr m m' hm).bind hf

theorem Ungroups.ofExcept {x : Except RuntimeError α} {x' : Except RuntimeError β}
    (hx : x' = x.map g) : (ofExcept x).Ungroups g (ofExcept x') := by
  intro m m' hm
  subst hx
  cases x with
  | ok a => exact .ok hm
  | error e => exact .failed e hm

theorem Ungroups.note (e e' : LogEntry) : (note e).Ungroups id (note e') :=
  fun _ _ hm => .ok ⟨hm.store, hm.scope, hm.clock, hm.written⟩

theorem Ungroups.write (w : Write) : (write w).Ungroups id (write w) :=
  fun _ _ hm => .ok ⟨hm.store, hm.scope, hm.clock, congrArg (·.push w) hm.written⟩

theorem Ungroups.readClock : readClock.Ungroups id readClock := by
  intro m m' hm
  simp only [Run.readClock, hm.clock]
  exact .ok ⟨hm.store, hm.scope, rfl, hm.written⟩

theorem Ungroups.currentScope : currentScope.Ungroups id currentScope := by
  intro m m' hm
  simp only [Run.currentScope, hm.scope]
  exact .ok hm

/-- A new scope has the same number on both sides, since no scope is added or dropped. -/
theorem Ungroups.openScope (i : ScopeId) : (openScope i).Ungroups id (openScope i) := by
  intro m m' hm
  have hnext : m'.store.scopes.size = m.store.scopes.size := by
    rw [hm.store, Store.size_ungrouped]
  simp only [Run.openScope, Store.openScope, hnext]
  refine .ok ⟨?_, hm.scope, hm.clock, hm.written⟩
  have hopened := m.store.ungrouped_openScope (some i)
  rw [← hm.store] at hopened
  exact hopened.symm

theorem Ungroups.within {r : Run α} {r' : Run β} (i : ScopeId) (hr : r.Ungroups g r') :
    (within i r).Ungroups g (within i r') := by
  intro m m' hm
  have hinside : Machine.Ungroups { m with scope := i } { m' with scope := i } :=
    ⟨hm.store, rfl, hm.clock, hm.written⟩
  rw [within_apply, within_apply, hm.scope]
  exact (hr _ _ hinside).inScope m.scope

theorem Ungroups.get (name : Token) : (get name).Ungroups Value.ungrouped (get name) := by
  intro m m' hm
  simp only [Run.get, Store.get, hm.store, hm.scope, Store.lookup?_ungrouped]
  cases m.store.lookup? m.scope name.lexeme with
  | none => exact .failed _ hm
  | some v => exact .ok hm

/-- A name that is free in one scope is free in the other. -/
theorem Ungroups.define (i : ScopeId) (name : Token) (v : Value) :
    (define i name v).Ungroups id (define i name v.ungrouped) := by
  intro m m' hm
  simp only [Run.define, Store.checkFree, hm.store, Store.binds_ungrouped]
  cases m.store.binds i name.lexeme with
  | true => exact .failed _ hm
  | false =>
    refine .ok ⟨?_, hm.scope, hm.clock, hm.written⟩
    exact (Store.ungrouped_modify (fun s => s.ungrouped_insert name.lexeme v) m.store i).symm

/-- The scope that binds a name is the same one. -/
theorem Ungroups.assign (name : Token) (v : Value) :
    (assign name v).Ungroups id (assign name v.ungrouped) := by
  intro m m' hm
  simp only [Run.assign, Store.binder, hm.store, hm.scope, Store.binder?_ungrouped]
  cases m.store.binder? m.scope name.lexeme with
  | none => exact .failed _ hm
  | some i =>
    refine .ok ⟨?_, rfl, hm.clock, hm.written⟩
    exact (Store.ungrouped_modify (fun s => s.ungrouped_replace name.lexeme v) m.store i).symm

end Run

/-! ## Evaluation -/

def Flow.ungrouped : Flow → Flow
  | .next => .next
  | .returned v => .returned v.ungrouped

/-- Calls correspond. -/
def CallsUngroup (apply apply' : Callable → List Value → Run Value) : Prop :=
  ∀ c args, (apply c args).Ungroups Value.ungrouped
    (apply' c.ungrouped (args.map Value.ungrouped))

section
variable {apply apply' : Callable → List Value → Run Value}

mutual

/-- An expression is evaluated as it is without parentheses. Evaluating a group is evaluating what
stands inside, which is the only place where the trees differ. -/
theorem evaluate_ungroups (h : CallsUngroup apply apply') : (e : Expr) →
    (evaluate apply e).Ungroups Value.ungrouped (evaluate apply' e.ungrouped)
  | .literal value => by
    rw [Expr.ungrouped, evaluate, evaluate]
    exact .pure (Value.ungrouped_ofLiteral value).symm
  | .var name => by
    rw [Expr.ungrouped, evaluate, evaluate]
    exact .get name
  | .assign name e => by
    rw [Expr.ungrouped, evaluate, evaluate]
    exact .bind (evaluate_ungroups h e) fun v => .bind (.assign name v) fun _ => .pure rfl
  | .unary op e => by
    rw [Expr.ungrouped, evaluate, evaluate]
    exact .bind (evaluate_ungroups h e) fun v => .ofExcept (Operator.unary_ungrouped op v)
  | .binary l op r => by
    rw [Expr.ungrouped, evaluate, evaluate]
    exact .bind (evaluate_ungroups h l) fun x => .bind (evaluate_ungroups h r) fun y =>
      .ofExcept (Operator.binary_ungrouped op x y)
  | .logical l op r => by
    rw [Expr.ungrouped, evaluate, evaluate]
    refine .bind (evaluate_ungroups h l) fun x => ?_
    refine .bind (.ofExcept (Operator.decided_ungrouped op x)) fun decided => ?_
    cases decided with
    | true => exact .pure rfl
    | false => exact evaluate_ungroups h r
  -- Here one side has a node more than the other.
  | .group e => by
    rw [Expr.ungrouped, evaluate]
    exact evaluate_ungroups h e
  | .call e paren args => by
    rw [Expr.ungrouped, evaluate, evaluate]
    refine .bind (evaluate_ungroups h e) fun f => ?_
    refine .bind (evaluateAll_ungroups h args) fun vs => ?_
    rw [List.length_map]
    refine .bind (.ofExcept (Operator.callee_ungrouped paren f vs.length)) fun c => ?_
    exact .bind (.note _ _) fun _ => h c vs

theorem evaluateAll_ungroups (h : CallsUngroup apply apply') : (es : List Expr) →
    (evaluateAll apply es).Ungroups (List.map Value.ungrouped)
      (evaluateAll apply' (Expr.ungroupedAll es))
  | [] => by
    rw [Expr.ungroupedAll, evaluateAll, evaluateAll]
    exact .pure rfl
  | e :: es => by
    rw [Expr.ungroupedAll, evaluateAll, evaluateAll]
    exact .bind (evaluate_ungroups h e) fun v => .bind (evaluateAll_ungroups h es) fun vs =>
      .pure rfl

end

theorem evaluateOption_ungroups (h : CallsUngroup apply apply') (e : Option Expr) :
    (evaluateOption apply e).Ungroups Value.ungrouped
      (evaluateOption apply' (e.map Expr.ungrouped)) := by
  cases e with
  | none => exact .pure rfl
  | some e => exact evaluate_ungroups h e

/-- Loops go round equally often, because conditions are true or false alike. -/
theorem repeatWhile_ungroups {cond cond' : Run Value} {body body' : Run Flow}
    (hcond : cond.Ungroups Value.ungrouped cond') (hbody : body.Ungroups Flow.ungrouped body')
    (fuel : Nat) :
    (repeatWhile cond body fuel).Ungroups Flow.ungrouped (repeatWhile cond' body' fuel) := by
  induction fuel with
  | zero => exact .exhausted
  | succ fuel ih =>
    refine .bind hcond fun v => ?_
    rw [Value.ungrouped_truthy]
    split
    · refine .bind hbody fun flow => ?_
      cases flow with
      | next => exact ih
      | returned v => exact .pure rfl
    · exact .pure rfl

mutual

/-- A statement is executed as it is without parentheses. -/
theorem execute_ungroups (h : CallsUngroup apply apply') (fuel : Nat) : (s : Stmt) →
    (execute apply fuel s).Ungroups Flow.ungrouped (execute apply' fuel s.ungrouped)
  | .expr e => by
    rw [Stmt.ungrouped, execute, execute]
    exact .bind (evaluate_ungroups h e) fun _ => .pure rfl
  | .print e => by
    rw [Stmt.ungrouped, execute, execute]
    refine .bind (evaluate_ungroups h e) fun v => ?_
    rw [Value.ungrouped_text]
    exact .bind (.write _) fun _ => .pure rfl
  | .var name initializer => by
    rw [Stmt.ungrouped, execute, execute]
    refine .bind (evaluateOption_ungroups h initializer) fun v => ?_
    exact .bind .currentScope fun scope => .bind (.define scope name v) fun _ => .pure rfl
  | .block body => by
    rw [Stmt.ungrouped, execute, execute]
    refine .bind .currentScope fun scope => .bind (.openScope scope) fun inner => ?_
    exact .within inner (executeAll_ungroups h fuel body)
  | .branch cond thenBranch none => by
    rw [Stmt.ungrouped, execute, execute]
    refine .bind (evaluate_ungroups h cond) fun v => ?_
    rw [Value.ungrouped_truthy]
    split
    · exact execute_ungroups h fuel thenBranch
    · exact .pure rfl
  | .branch cond thenBranch (some elseBranch) => by
    rw [Stmt.ungrouped, execute, execute]
    refine .bind (evaluate_ungroups h cond) fun v => ?_
    rw [Value.ungrouped_truthy]
    split
    · exact execute_ungroups h fuel thenBranch
    · exact execute_ungroups h fuel elseBranch
  | .loop cond body => by
    rw [Stmt.ungrouped, execute, execute]
    exact repeatWhile_ungroups (evaluate_ungroups h cond) (execute_ungroups h fuel body) fuel
  | .function name params body => by
    rw [Stmt.ungrouped, execute, execute]
    -- The stored values differ by the parentheses in the body.
    exact .bind .currentScope fun scope =>
      .bind (.define scope name (.callable (.function ⟨name, params, body, scope⟩))) fun _ =>
        .pure rfl
  | .ret keyword value => by
    rw [Stmt.ungrouped, execute, execute]
    exact .bind (evaluateOption_ungroups h value) fun v => .pure rfl

/-- Statements one after the other, up to a return. -/
theorem executeAll_ungroups (h : CallsUngroup apply apply') (fuel : Nat) : (ss : List Stmt) →
    (executeAll apply fuel ss).Ungroups Flow.ungrouped
      (executeAll apply' fuel (Stmt.ungroupedAll ss))
  | [] => by
    rw [Stmt.ungroupedAll, executeAll, executeAll]
    exact .pure rfl
  | s :: ss => by
    rw [Stmt.ungroupedAll, executeAll, executeAll]
    refine .bind (execute_ungroups h fuel s) fun flow => ?_
    cases flow with
    | next => exact executeAll_ungroups h fuel ss
    | returned v => exact .pure rfl

end

end

/-! ## Calls -/

/-- Native functions see the texts of their arguments, in which no body shows. -/
theorem nativeCall_ungroups (f : Native) (args : List Value) :
    (f.call args).Ungroups Value.ungrouped (f.call (args.map Value.ungrouped)) := by
  cases f with
  | clock => exact .bind .readClock fun x => .pure rfl
  | write =>
    refine .bind (g := id) ?_ fun _ => .pure rfl
    induction args with
    | nil => exact .pure rfl
    | cons v vs ih =>
      -- The texts are the same, so that the same is written.
      have hwrite : (Run.write (.plain v.text)).Ungroups id
          (Run.write (.plain v.ungrouped.text)) := by
        rw [Value.ungrouped_text]
        exact .write _
      exact .bind hwrite fun _ => ih
  | writeLine =>
    have htexts : (args.map Value.ungrouped).map Value.text = args.map Value.text := by
      simp
    simp only [Native.call, htexts]
    exact .bind (.write _) fun _ => .pure rfl

theorem bindParams_ungroups (scope : ScopeId) (params : List Token) (args : List Value) :
    (bindParams scope params args).Ungroups id
      (bindParams scope params (args.map Value.ungrouped)) := by
  induction params generalizing args with
  | nil => exact .pure rfl
  | cons p ps ih =>
    cases args with
    | nil => exact .pure rfl
    | cons v vs => exact .bind (.define scope p v) fun _ => ih vs

/-- A call of a function executes its body without parentheses, by induction on the fuel. -/
theorem call_ungroups (fuel : Nat) : CallsUngroup (call fuel) (call fuel) := by
  induction fuel with
  | zero =>
    intro c args
    cases c with
    | native f => exact nativeCall_ungroups f args
    | function f => exact .exhausted
  | succ fuel ih =>
    intro c args
    cases c with
    | native f => exact nativeCall_ungroups f args
    | function f =>
      refine .bind (.openScope f.closure) fun scope => ?_
      refine .bind (bindParams_ungroups scope f.params args) fun _ => ?_
      refine .bind (.within scope (executeAll_ungroups ih fuel f.body)) fun flow => ?_
      cases flow with
      | next => exact .pure rfl
      | returned v => exact .pure rfl

/-! ## Units -/

/-- A unit of statements, with the return to the global scope after an error. -/
theorem Machine.Ungroups.interpret {m m' : Machine} (h : m.Ungroups m') (fuel : Nat)
    (statements : List Stmt) : (m.interpret fuel statements).Ungroups id
      (m'.interpret fuel (Stmt.ungroupedAll statements)) := by
  have hstart : (m.note (.interpreting statements.length)).Ungroups
      (m'.note (.interpreting (Stmt.ungroupedAll statements).length)) :=
    ⟨h.store, h.scope, h.clock, h.written⟩
  have hrun := executeAll_ungroups (call_ungroups fuel) fuel statements _ _ hstart
  simp only [Machine.interpret]
  -- The outcomes are replaced by variables, so that their cases can be taken.
  revert hrun
  generalize executeAll (call fuel) fuel statements _ = o
  generalize executeAll (call fuel) fuel (Stmt.ungroupedAll statements) _ = o'
  intro hrun
  cases hrun with
  | ok hm => exact .ok hm
  | failed e hm => exact .failed e ⟨hm.store, rfl, hm.clock, hm.written⟩
  | outOfFuel => exact .outOfFuel

theorem Outcome.Ungroups.outOfFuel_iff {α β : Type} {g : α → β} {o : Outcome α} {o' : Outcome β}
    (h : o.Ungroups g o') : o = .outOfFuel ↔ o' = .outOfFuel := by
  cases h with
  | ok | failed => simp
  | outOfFuel => exact ⟨fun _ => rfl, fun _ => rfl⟩

/-- Machines that are left correspond. -/
theorem Outcome.Ungroups.machines {α β : Type} {g : α → β} {o : Outcome α} {o' : Outcome β}
    (h : o.Ungroups g o') {m m' : Machine} (hm : m ∈ o.machine?) (hm' : m' ∈ o'.machine?) :
    m.Ungroups m' := by
  cases h with
  | ok h | failed _ h =>
    cases hm
    cases hm'
    exact h
  | outOfFuel => cases hm

/-- Names mean the same in one machine just when they do in the other. -/
theorem Machine.Ungroups.sameMeaning_eq {m m' : Machine} (h : m.Ungroups m') (i j : ScopeId)
    (x y : String) :
    Session.sameMeaning (m'.store.lookup? i x) (m'.store.lookup? j y) =
      Session.sameMeaning (m.store.lookup? i x) (m.store.lookup? j y) := by
  rw [h.store, Store.lookup?_ungrouped, Store.lookup?_ungrouped]
  cases m.store.lookup? i x with
  | none => cases m.store.lookup? j y <;> rfl
  | some v =>
    cases m.store.lookup? j y with
    | none => rfl
    | some w => exact v.ungrouped_same w

/-- Parentheses only group. Let the second of two machines be the first one without parentheses in
the functions that are stored in it. One of them executes statements, whatever their shape, and the
other one the same statements without parentheses:

* with the same fuel, both come to an end or both do not, and if they do, both succeed or both fail,
  with the same error. The machine that the second one leaves is the machine that the first one
  leaves without parentheses in stored functions, and they have written the same;
* if one of them comes to no end with any fuel, then so does the other one;
* from any two scopes, any two names mean the same in one of the machines that are left just when
  they do in the other one. -/
theorem parentheses_only_group {m m' : Machine} (h : m.Ungroups m') (statements : List Stmt) :
    (∀ fuel, (m.interpret fuel statements).Ungroups id
      (m'.interpret fuel (Stmt.ungroupedAll statements))) ∧
    ((∀ fuel, m.interpret fuel statements = .outOfFuel) ↔
      ∀ fuel, m'.interpret fuel (Stmt.ungroupedAll statements) = .outOfFuel) ∧
    ∀ fuel, ∀ after ∈ (m.interpret fuel statements).machine?,
      ∀ after' ∈ (m'.interpret fuel (Stmt.ungroupedAll statements)).machine?,
        after'.written = after.written ∧
        ∀ i j x y, Session.sameMeaning (after'.store.lookup? i x) (after'.store.lookup? j y) =
          Session.sameMeaning (after.store.lookup? i x) (after.store.lookup? j y) := by
  have hinterpret := fun fuel => h.interpret fuel statements
  refine ⟨hinterpret, forall_congr' fun fuel => (hinterpret fuel).outOfFuel_iff, ?_⟩
  intro fuel after hafter after' hafter'
  have hleft := (hinterpret fuel).machines hafter hafter'
  exact ⟨hleft.written, hleft.sameMeaning_eq⟩

/-- A function with parentheses in its body is stored, and called in parentheses. -/
theorem parentheses_only_group_around_call :
    let f : Token := ⟨.identifier, "f", none, 1⟩
    let stored (result : Expr) : Machine := { Machine.initial (.startingAt 0) with
      store := ⟨#[⟨[("f", .callable (.function ⟨f, [], [.ret f (some result)], 0⟩))], none⟩]⟩ }
    let m := stored (.group (.literal (.bool true)))
    let m' := stored (.literal (.bool true))
    m.Ungroups m' ∧
      (m.interpret 2 [.print (.group (.call (.group (.var f)) f []))]).Ungroups id
        (m'.interpret 2 [.print (.call (.var f) f [])]) ∧
      ((m'.interpret 2 [.print (.call (.var f) f [])]).machine?.map (·.written)) =
        some #[.line "true"] := by
  intro f stored m m'
  have hstore : m'.store = m.store.ungrouped := by
    simp only [Store.ungrouped, m, stored, List.map_toArray]
    rfl
  have hm : m.Ungroups m' := ⟨hstore, rfl, rfl, rfl⟩
  exact ⟨hm, (parentheses_only_group hm [.print (.group (.call (.group (.var f)) f []))]).1 2,
    by decide +kernel⟩

end Treewalk
