import Treewalk.Proofs.Machine.Built
import Treewalk.Proofs.Scopes

/-!
# What runs add to scopes

Scopes only grow: whatever runs, a scope that exists keeps all its names and lies where it lay, and
the scope that was current before is current again. `Run.Grows` says in addition which names may be
new in which of these scopes. A statement adds the names that it declares, and to the current scope
only; an expression and a call add none, because what is declared in a body is declared in a scope
that the call has opened.
-/

namespace Treewalk

/-! ## Scopes and stores -/

/-- The scope has become `s'`: it lies where it lay, and has all its names and at most those others
that `may` allows. -/
structure Scope.Grows (may : String → Prop) (s s' : Scope) : Prop where
  enclosing : s'.enclosing = s.enclosing
  kept (x : String) : s.binds x → s'.binds x
  added (x : String) : s'.binds x → s.binds x ∨ may x

/-- Every scope of the store is still there in `st'`, and has grown as `may` allows. Nothing is said
about the scopes that are new. -/
def Store.Grows (may : ScopeId → String → Prop) (st st' : Store) : Prop :=
  ∀ i s, st.scope? i = some s → ∃ s', st'.scope? i = some s' ∧ s.Grows (may i) s'

theorem Scope.Grows.refl (may : String → Prop) (s : Scope) : s.Grows may s :=
  ⟨rfl, fun _ h => h, fun _ h => .inl h⟩

/-- Names that are new in either step are allowed. -/
theorem Scope.Grows.trans {may : String → Prop} {s s' s'' : Scope} (h : s.Grows may s')
    (h' : s'.Grows may s'') : s.Grows may s'' where
  enclosing := h'.enclosing.trans h.enclosing
  kept x hx := h'.kept x (h.kept x hx)
  added x hx := by
    obtain hx' | hmay := h'.added x hx
    · exact h.added x hx'
    · exact .inr hmay

/-- A binding adds its name, if that is allowed. -/
theorem Scope.insert_grows {may : String → Prop} {name : String} (h : may name) (s : Scope)
    (v : Value) : s.Grows may (s.insert name v) where
  enclosing := rfl
  kept _ hx := binds_insert.2 (.inr hx)
  added x hx := by
    obtain rfl | hx' := binds_insert.1 hx
    · exact .inr h
    · exact .inl hx'

/-- Replacing a value adds no name. -/
theorem Scope.replace_grows (may : String → Prop) (s : Scope) (name : String) (v : Value) :
    s.Grows may (s.replace name v) where
  enclosing := rfl
  kept _ hx := binds_replace.2 hx
  added _ hx := .inl (binds_replace.1 hx)

namespace Store

variable {may : ScopeId → String → Prop} {st st' st'' : Store}

theorem Grows.refl (may : ScopeId → String → Prop) (st : Store) : st.Grows may st :=
  fun i s h => ⟨s, h, .refl (may i) s⟩

/-- Scopes that are new in the first step may grow in any way in the second one. -/
theorem Grows.trans (h : st.Grows may st') (h' : st'.Grows may st'') : st.Grows may st'' := by
  intro i s hs
  obtain ⟨s', hs', hgrows⟩ := h i s hs
  obtain ⟨s'', hs'', hgrows'⟩ := h' i s' hs'
  exact ⟨s'', hs'', hgrows.trans hgrows'⟩

/-- A change of one scope, by which that scope grows. -/
theorem modify_grows {id : ScopeId} {f : Scope → Scope} (h : ∀ s : Scope, s.Grows (may id) (f s)) :
    st.Grows may (st.modify id f) := by
  intro i s hs
  rw [scope?_modify]
  split
  · subst id
    exact ⟨f s, by rw [hs]; rfl, h s⟩
  · exact ⟨s, hs, .refl (may i) s⟩

/-- What is added to a scope right after it was opened does not matter to those who had the store
before. -/
theorem Grows.of_openScope {enclosing : Option ScopeId}
    (h : (st.openScope enclosing).2.Grows (fun i x => i = st.scopes.size ∨ may i x) st') :
    st.Grows may st' := by
  intro i s hs
  obtain ⟨s', hs', hgrows⟩ := h i s (scope?_openScope_of_some hs enclosing)
  refine ⟨s', hs', hgrows.enclosing, hgrows.kept, fun x hx => ?_⟩
  obtain hold | hnew | hmay := hgrows.added x hx
  · exact .inl hold
  · exact absurd hnew (Nat.ne_of_lt (lt_size_of_scope? hs))
  · exact .inr hmay

end Store

/-! ## Runs -/

/-- The machine that is left, unless the fuel did not suffice. -/
def Outcome.machine? {α : Type} : Outcome α → Option Machine
  | ok _ m => some m
  | failed _ m => some m
  | outOfFuel => none

/-- However the run ends, from a machine in the scope `cur` it comes back to this scope, and the
scopes have grown as `may` allows. -/
def Run.Grows (cur : ScopeId) (may : ScopeId → String → Prop) {α : Type} (r : Run α) : Prop :=
  ∀ m, m.scope = cur → ∀ after ∈ (r m).machine?,
    after.scope = cur ∧ m.store.Grows may after.store

namespace Run

variable {α β : Type} {cur : ScopeId} {may : ScopeId → String → Prop}

/-- A run that leaves the scopes as they are. -/
theorem Grows.of_same {r : Run α}
    (h : ∀ m, ∀ after ∈ (r m).machine?, after.scope = m.scope ∧ after.store = m.store) :
    r.Grows cur may := by
  intro m hm after hafter
  obtain ⟨hscope, hstore⟩ := h m after hafter
  exact ⟨hscope.trans hm, hstore ▸ .refl may m.store⟩

theorem Grows.pure (a : α) : (pure a : Run α).Grows cur may :=
  .of_same fun _ _ h => by cases h; exact ⟨rfl, rfl⟩

theorem Grows.exhausted : (exhausted : Run α).Grows cur may :=
  .of_same fun _ _ h => by cases h

theorem Grows.ofExcept (x : Except RuntimeError α) : (ofExcept x).Grows cur may := by
  cases x with
  | error e => exact .of_same fun _ _ h => by cases h; exact ⟨rfl, rfl⟩
  | ok a => exact .pure a

theorem Grows.note (e : LogEntry) : (note e).Grows cur may :=
  .of_same fun _ _ h => by cases h; exact ⟨rfl, rfl⟩

theorem Grows.write (w : Write) : (write w).Grows cur may :=
  .of_same fun _ _ h => by cases h; exact ⟨rfl, rfl⟩

theorem Grows.readClock : readClock.Grows cur may :=
  .of_same fun _ _ h => by cases h; exact ⟨rfl, rfl⟩

theorem Grows.get (name : Token) : (get name).Grows cur may := by
  refine .of_same fun m after h => ?_
  simp only [Run.get] at h
  split at h <;> (cases h; exact ⟨rfl, rfl⟩)

/-- However the sequence ends, it has grown as its parts allow. -/
theorem Grows.bind {r : Run α} {f : α → Run β} (hr : r.Grows cur may)
    (hf : ∀ a, (f a).Grows cur may) : (r >>= f).Grows cur may := by
  intro m hm after hafter
  rw [bind_apply] at hafter
  cases h : r m with
  | ok a mid =>
    rw [h] at hafter
    obtain ⟨hscope, hgrows⟩ := hr m hm mid (by rw [h]; rfl)
    obtain ⟨hscope', hgrows'⟩ := hf a mid hscope after hafter
    exact ⟨hscope', hgrows.trans hgrows'⟩
  | failed e mid =>
    rw [h] at hafter
    exact hr m hm after (by rw [h]; exact hafter)
  | outOfFuel => rw [h] at hafter; cases hafter

theorem Grows.currentScope {f : ScopeId → Run β} (hf : (f cur).Grows cur may) :
    (currentScope >>= f).Grows cur may := by
  intro m hm after hafter
  subst hm
  exact hf m rfl after hafter

/-- What is added to a scope that the run itself has opened does not count. -/
theorem Grows.openScope {enclosing : ScopeId} {f : ScopeId → Run β}
    (hf : ∀ id, (f id).Grows cur (fun i x => i = id ∨ may i x)) :
    (openScope enclosing >>= f).Grows cur may := by
  intro m hm after hafter
  obtain ⟨hscope, hgrows⟩ := hf m.store.scopes.size
    { m with store := (m.store.openScope (some enclosing)).2 } hm after hafter
  exact ⟨hscope, hgrows.of_openScope⟩

/-- Whatever scope is current inside, outside it is the one from before. -/
theorem Grows.within {r : Run α} {scope : ScopeId} (hr : r.Grows scope may) :
    (within scope r).Grows cur may := by
  intro m hm after hafter
  rw [within_apply] at hafter
  cases h : r { m with scope } with
  | ok a mid =>
    rw [h] at hafter
    cases hafter
    exact ⟨hm, (hr { m with scope } rfl mid (by rw [h]; rfl)).2⟩
  -- After an error the current scope is set back as well.
  | failed e mid =>
    rw [h] at hafter
    cases hafter
    exact ⟨hm, (hr { m with scope } rfl mid (by rw [h]; rfl)).2⟩
  | outOfFuel => rw [h] at hafter; cases hafter

/-- The one run that adds a name to a scope. -/
theorem Grows.define {scope : ScopeId} {name : Token} (h : may scope name.lexeme) (v : Value) :
    (define scope name v).Grows cur may := by
  intro m hm after hafter
  simp only [Run.define] at hafter
  split at hafter
  · cases hafter
    exact ⟨hm, Store.modify_grows fun s => Scope.insert_grows h s v⟩
  · cases hafter
    exact ⟨hm, .refl may m.store⟩

/-- An assignment changes a value where the name is bound already. -/
theorem Grows.assign (name : Token) (v : Value) : (assign name v).Grows cur may := by
  intro m hm after hafter
  simp only [Run.assign] at hafter
  split at hafter
  · cases hafter
    exact ⟨hm, Store.modify_grows fun s => Scope.replace_grows _ s name.lexeme v⟩
  · cases hafter
    exact ⟨hm, .refl may m.store⟩

end Run

/-! ## Expressions -/

section
variable {apply : Callable → List Value → Run Value}

mutual

/-- An expression adds no name, if calls do not. -/
theorem evaluate_grows (h : ∀ cur may c args, (apply c args).Grows cur may) {cur : ScopeId}
    {may : ScopeId → String → Prop} : (e : Expr) → (evaluate apply e).Grows cur may
  | .literal value => by rw [evaluate]; exact .pure _
  | .var name => by rw [evaluate]; exact .get name
  | .assign name e => by
    rw [evaluate]
    exact .bind (evaluate_grows h e) fun v => .bind (.assign name v) fun _ => .pure v
  | .unary op e => by
    rw [evaluate]
    exact .bind (evaluate_grows h e) fun v => .ofExcept _
  | .binary l op r => by
    rw [evaluate]
    exact .bind (evaluate_grows h l) fun x => .bind (evaluate_grows h r) fun y => .ofExcept _
  | .logical l op r => by
    rw [evaluate]
    refine .bind (evaluate_grows h l) fun x => .bind (.ofExcept _) fun decided => ?_
    split
    · exact .pure x
    · exact evaluate_grows h r
  | .group e => by rw [evaluate]; exact evaluate_grows h e
  | .call e paren args => by
    rw [evaluate]
    exact .bind (evaluate_grows h e) fun f => .bind (evaluateAll_grows h args) fun vs =>
      .bind (.ofExcept _) fun c => .bind (.note _) fun _ => h cur may c vs

/-- Arguments add no names. -/
theorem evaluateAll_grows (h : ∀ cur may c args, (apply c args).Grows cur may) {cur : ScopeId}
    {may : ScopeId → String → Prop} : (es : List Expr) → (evaluateAll apply es).Grows cur may
  | [] => by rw [evaluateAll]; exact .pure []
  | e :: es => by
    rw [evaluateAll]
    exact .bind (evaluate_grows h e) fun v => .bind (evaluateAll_grows h es) fun vs => .pure _

end

theorem evaluateOption_grows (h : ∀ cur may c args, (apply c args).Grows cur may) {cur : ScopeId}
    {may : ScopeId → String → Prop} (e : Option Expr) :
    (evaluateOption apply e).Grows cur may := by
  cases e with
  | none => exact .pure _
  | some e => exact evaluate_grows h e

end

/-! ## Statements -/

mutual

/-- The names that a statement declares in the scope in which it is executed. What stands in a block
is declared in the scope of the block. -/
def Stmt.declared : Stmt → List String
  | .expr _ => []
  | .print _ => []
  | .var name _ => [name.lexeme]
  | .block _ => []
  | .branch _ thenBranch none => thenBranch.declared
  | .branch _ thenBranch (some elseBranch) => thenBranch.declared ++ elseBranch.declared
  | .loop _ body => body.declared
  | .function name _ _ => [name.lexeme]
  | .ret _ _ => []

/-- The names that statements declare in the scope in which they are executed. -/
def Stmt.declaredAll : List Stmt → List String
  | [] => []
  | s :: ss => s.declared ++ Stmt.declaredAll ss

end

section
variable {apply : Callable → List Value → Run Value}

/-- Each round adds what its body declares. -/
theorem repeatWhile_grows {cur : ScopeId} {may : ScopeId → String → Prop} {cond : Run Value}
    {body : Run Flow} (hcond : cond.Grows cur may) (hbody : body.Grows cur may) (fuel : Nat) :
    (repeatWhile cond body fuel).Grows cur may := by
  induction fuel with
  | zero => exact .exhausted
  | succ fuel ih =>
    refine .bind hcond fun v => ?_
    split
    · refine .bind hbody fun flow => ?_
      cases flow with
      | next => exact ih
      | returned v => exact .pure _
    · exact .pure _

mutual

/-- A statement adds the names that it declares, to the current scope. -/
theorem execute_grows (h : ∀ cur may c args, (apply c args).Grows cur may) {fuel : Nat}
    {cur : ScopeId} {may : ScopeId → String → Prop} :
    (s : Stmt) → (∀ x ∈ s.declared, may cur x) → (execute apply fuel s).Grows cur may
  | .expr e, _ => by
    rw [execute]
    exact .bind (evaluate_grows h e) fun _ => .pure _
  | .print e, _ => by
    rw [execute]
    exact .bind (evaluate_grows h e) fun v => .bind (.write _) fun _ => .pure _
  | .var name initializer, hmay => by
    rw [execute]
    have hname := hmay name.lexeme (by simp [Stmt.declared])
    exact .bind (evaluateOption_grows h initializer) fun v => .currentScope <|
      .bind (.define hname v) fun _ => .pure _
  | .block body, _ => by
    rw [execute]
    -- The body is executed in the scope just opened, where it may declare what it likes.
    exact .currentScope <| .openScope fun id => .within <|
      executeAll_grows h body fun _ _ => .inl rfl
  | .branch cond thenBranch none, hmay => by
    rw [execute]
    rw [Stmt.declared] at hmay
    refine .bind (evaluate_grows h cond) fun v => ?_
    split
    · exact execute_grows h thenBranch hmay
    · exact .pure _
  | .branch cond thenBranch (some elseBranch), hmay => by
    rw [execute]
    rw [Stmt.declared] at hmay
    refine .bind (evaluate_grows h cond) fun v => ?_
    split
    · exact execute_grows h thenBranch fun x hx => hmay x (List.mem_append_left _ hx)
    · exact execute_grows h elseBranch fun x hx => hmay x (List.mem_append_right _ hx)
  | .loop cond body, hmay => by
    rw [execute]
    rw [Stmt.declared] at hmay
    exact repeatWhile_grows (evaluate_grows h cond) (execute_grows h body hmay) fuel
  | .function name params body, hmay => by
    rw [execute]
    have hname := hmay name.lexeme (by simp [Stmt.declared])
    exact .currentScope <| .bind (.define hname _) fun _ => .pure _
  | .ret keyword value, _ => by
    rw [execute]
    exact .bind (evaluateOption_grows h value) fun v => .pure _

/-- Statements add what they declare, all in the current scope. -/
theorem executeAll_grows (h : ∀ cur may c args, (apply c args).Grows cur may) {fuel : Nat}
    {cur : ScopeId} {may : ScopeId → String → Prop} :
    (ss : List Stmt) → (∀ x ∈ Stmt.declaredAll ss, may cur x) →
      (executeAll apply fuel ss).Grows cur may
  | [], _ => by rw [executeAll]; exact .pure _
  | s :: rest, hmay => by
    rw [executeAll]
    rw [Stmt.declaredAll] at hmay
    refine .bind (execute_grows h s fun x hx => hmay x (List.mem_append_left _ hx)) fun flow => ?_
    cases flow with
    | next => exact executeAll_grows h rest fun x hx => hmay x (List.mem_append_right _ hx)
    | returned v => exact .pure _

end

end

/-! ## Calls -/

/-- Native functions do not touch scopes. -/
theorem nativeCall_grows {cur : ScopeId} {may : ScopeId → String → Prop} (f : Native)
    (args : List Value) : (f.call args).Grows cur may := by
  cases f with
  | clock => exact .bind .readClock fun _ => .pure _
  | write =>
    refine .bind ?_ fun _ => .pure _
    induction args with
    | nil => exact .pure _
    | cons v vs ih => exact .bind (.write _) fun _ => ih
  | writeLine => exact .bind (.write _) fun _ => .pure _

/-- Parameters are bound in the scope of the call, where every name is allowed. -/
theorem bindParams_grows {cur scope : ScopeId} {may : ScopeId → String → Prop}
    (h : ∀ x, may scope x) (params : List Token) (args : List Value) :
    (bindParams scope params args).Grows cur may := by
  induction params generalizing args with
  | nil => exact .pure ()
  | cons p ps ih =>
    cases args with
    | nil => exact .pure ()
    | cons v vs => exact .bind (.define (h p.lexeme) v) fun _ => ih vs

/-- A call adds no name: parameters and what the body declares belong to a scope of its own. -/
theorem call_grows (fuel : Nat) (cur : ScopeId) (may : ScopeId → String → Prop) (c : Callable)
    (args : List Value) : (call fuel c args).Grows cur may := by
  induction fuel generalizing cur may c args with
  | zero =>
    cases c with
    | native f => exact nativeCall_grows f args
    | function f => exact .exhausted
  | succ fuel ih =>
    cases c with
    | native f => exact nativeCall_grows f args
    | function f =>
      refine .openScope fun id => .bind (bindParams_grows (fun _ => .inl rfl) _ _) fun _ => ?_
      refine .bind (.within (executeAll_grows ih f.body fun _ _ => .inl rfl)) fun flow => ?_
      cases flow with
      | next => exact .pure _
      | returned v => exact .pure _

end Treewalk
