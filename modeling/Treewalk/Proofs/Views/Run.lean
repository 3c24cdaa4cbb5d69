import Treewalk.Proofs.Machine.Activity
import Treewalk.Proofs.Views.Store

/-!
# Runs under a view

A machine that fits a view can be run in two ways: as it is, or as the view shows it. Both come to
the same, and leave the same as the view shows it. The machine that is left fits the view again, and
hidden scopes are as they were. `Run.Respects` says so of two runs, the second of which is the first
one as it goes in the machine that the view shows. In the end these are one and the same run of the
evaluator, but on the way the scope that is current may be one that is looked through in the first
and the one behind it in the second.

A declaration in a scope that is looked through would be one in the scope behind it. So what is
executed there must declare nothing.
-/

namespace Treewalk

/-! ## Machines -/

structure Machine.Fits (V : View) (m : Machine) : Prop where
  store : m.store.Fits V
  scope : V.Shows m.nextScope m.scope

/-- The machine as the view shows it. -/
def Machine.through (V : View) (m : Machine) : Machine :=
  { m with store := m.store.through V, scope := V.through m.scope }

/-- A machine that fits the view has become another one: that fits the view too, is in the same
scope, and differs in nothing that is hidden. -/
structure Machine.Becomes (V : View) (m after : Machine) : Prop where
  fits : after.Fits V
  scope : after.scope = m.scope
  nextScope_le : m.nextScope ≤ after.nextScope
  hidden : ∀ i, V.hidden i → after.store.scope? i = m.store.scope? i

/-- The outcome of a run that starts in a machine that fits the view. A result satisfies `Q`, which
may depend on the number of scopes that there are. -/
inductive Outcome.Respects (V : View) (m : Machine) {α : Type} (Q : Nat → α → Prop) :
    Outcome α → Prop where
  | ok {a after} : m.Becomes V after → Q after.nextScope a → Respects V m Q (.ok a after)
  | failed {e after} : m.Becomes V after → Respects V m Q (.failed e after)
  | outOfFuel : Respects V m Q .outOfFuel

/-- In machines that fit the view, have at least `n` scopes and are in the scope `cur`, the run
respects the view, and `r'` does the same in the machine that the view shows. -/
def Run.Respects (V : View) (cur : ScopeId) (n : Nat) {α : Type} (Q : Nat → α → Prop)
    (r r' : Run α) : Prop :=
  ∀ m, m.scope = cur → n ≤ m.nextScope → m.Fits V →
    (r m).Respects V m Q ∧ r' (m.through V) = (r m).mapMachine (Machine.through V)

variable {V : View} {n : Nat} {cur : ScopeId}

namespace Machine

variable {m m₁ m₂ : Machine}

/-- What leaves the scopes alone changes nothing that a view could show. -/
theorem Becomes.of_eq (h : m.Fits V) (hstore : m₁.store = m.store) (hscope : m₁.scope = m.scope) :
    m.Becomes V m₁ where
  fits := ⟨by rw [hstore]; exact h.store, by rw [nextScope, hstore, hscope]; exact h.scope⟩
  scope := hscope
  nextScope_le := Nat.le_of_eq (by rw [nextScope, nextScope, hstore])
  hidden i _ := by rw [hstore]

theorem Becomes.refl (h : m.Fits V) : m.Becomes V m :=
  .of_eq h rfl rfl

theorem Becomes.trans (h : m.Becomes V m₁) (h' : m₁.Becomes V m₂) : m.Becomes V m₂ where
  fits := h'.fits
  scope := h'.scope.trans h.scope
  nextScope_le := Nat.le_trans h.nextScope_le h'.nextScope_le
  hidden i hi := (h'.hidden i hi).trans (h.hidden i hi)

/-- Bindings of a scope that is not hidden have changed. -/
theorem Becomes.of_modify (h : m.Fits V) {i : ScopeId} {f : Scope → Scope} (hi : ¬V.hidden i)
    (hf : ∀ s : Scope, s.Fits V m.nextScope i → (f s).Fits V m.nextScope i)
    (hstore : m₁.store = m.store.modify i f) (hscope : m₁.scope = m.scope) : m.Becomes V m₁ where
  fits := by
    refine ⟨by rw [hstore]; exact h.store.modify hf, ?_⟩
    rw [nextScope, hstore, Store.size_modify, hscope]
    exact h.scope
  scope := hscope
  nextScope_le := Nat.le_of_eq (by rw [nextScope, nextScope, hstore, Store.size_modify])
  hidden j hj := by
    have hne : i ≠ j := fun heq => hi (heq ▸ hj)
    rw [hstore, Store.scope?_modify, if_neg hne]

theorem nextScope_opened (m : Machine) (o : ScopeId) :
    (m.opened o).nextScope = m.nextScope + 1 :=
  Store.size_openScope ..

/-- A scope may be opened inside one that the view shows. It is new, and so not hidden. -/
theorem Becomes.opened (h : m.Fits V) {o : ScopeId} (ho : V.Shows m.nextScope o) :
    m.Becomes V (m.opened o) where
  fits := ⟨h.store.openScope ho, by
    rw [nextScope_opened]
    exact h.scope.mono (Nat.le_succ _)⟩
  scope := rfl
  nextScope_le := by rw [nextScope_opened]; exact Nat.le_succ _
  hidden i hi := by
    have hne : i ≠ m.nextScope := by
      rintro rfl
      exact (h.store.unopened _ (Nat.le_refl _)).1 hi
    exact (Store.scope?_openScope ..).trans (if_neg hne)

theorem nextScope_through (V : View) (m : Machine) : (m.through V).nextScope = m.nextScope :=
  Store.size_through ..

/-- The scope that is opened lies in what is behind the scope around it. -/
theorem through_opened (V : View) (m : Machine) (o : ScopeId) :
    (m.opened o).through V = (m.through V).opened (V.through o) := by
  simp only [through, opened, Store.through_openScope]

end Machine

/-! ## Outcomes -/

namespace Outcome

variable {α : Type} {Q Q' : Nat → α → Prop} {o : Outcome α} {m m₁ : Machine}

/-- The outcome may be judged from an earlier machine. -/
theorem Respects.mono (h : o.Respects V m₁ Q) (hbecomes : m.Becomes V m₁) :
    o.Respects V m Q := by
  cases h with
  | ok hafter hQ => exact .ok (hbecomes.trans hafter) hQ
  | failed hafter => exact .failed (hbecomes.trans hafter)
  | outOfFuel => exact .outOfFuel

/-- Whatever is left, by success or failure, has come from the machine at the start. -/
theorem Respects.becomes (h : o.Respects V m Q) {after : Machine} (hafter : after ∈ o.machine?) :
    m.Becomes V after := by
  cases h with
  | ok hbecomes _ => cases hafter; exact hbecomes
  | failed hbecomes => cases hafter; exact hbecomes
  | outOfFuel => cases hafter

theorem Respects.of_ok {a : α} {after : Machine} (h : (Outcome.ok a after).Respects V m Q) :
    m.Becomes V after ∧ Q after.nextScope a := by
  cases h with
  | ok hbecomes hQ => exact ⟨hbecomes, hQ⟩

end Outcome

/-! ## Basic runs -/

namespace Run

variable {α β : Type} {Q : Nat → α → Prop} {R : Nat → β → Prop} {name : Token} {v : Value}

theorem Respects.pure {a : α} (h : ∀ k, n ≤ k → Q k a) :
    (pure a : Run α).Respects V cur n Q (Pure.pure a) :=
  fun _ _ hle hm => ⟨.ok (.refl hm) (h _ hle), rfl⟩

theorem Respects.exhausted : (exhausted : Run α).Respects V cur n Q exhausted :=
  fun _ _ _ _ => ⟨.outOfFuel, rfl⟩

/-- An operation on values does not see the machine at all. -/
theorem Respects.ofExcept {x : Except RuntimeError α} (h : ∀ k a, n ≤ k → x = .ok a → Q k a) :
    (ofExcept x).Respects V cur n Q (ofExcept x) := by
  intro m _ hle hm
  cases x with
  | error e => exact ⟨.failed (.refl hm), rfl⟩
  | ok a => exact ⟨.ok (.refl hm) (h _ a hle rfl), rfl⟩

theorem Respects.note (e : LogEntry) :
    (note e).Respects V cur n (fun _ _ => True) (note e) :=
  fun _ _ _ hm => ⟨.ok (.of_eq hm rfl rfl) trivial, rfl⟩

theorem Respects.write (w : Write) :
    (write w).Respects V cur n (fun _ _ => True) (write w) :=
  fun _ _ _ hm => ⟨.ok (.of_eq hm rfl rfl) trivial, rfl⟩

theorem Respects.readClock : readClock.Respects V cur n (fun _ _ => True) readClock :=
  fun _ _ _ hm => ⟨.ok (.of_eq hm rfl rfl) trivial, rfl⟩

/-- The second run starts with as many scopes as the first has left, with a result that fits these.
-/
theorem Respects.bind {r r' : Run α} {f f' : α → Run β} (hr : r.Respects V cur n Q r')
    (hf : ∀ k a, n ≤ k → Q k a → (f a).Respects V cur k R (f' a)) :
    (r >>= f).Respects V cur n R (r' >>= f') := by
  intro m hcur hle hm
  obtain ⟨hrespects, heq⟩ := hr m hcur hle hm
  rw [bind_apply, bind_apply, heq]
  cases ho : r m with
  | ok a mid =>
    rw [ho] at hrespects
    obtain ⟨hbecomes, hQ⟩ := hrespects.of_ok
    -- The scope is the same as before the first run, so that the second one may be asked there.
    obtain ⟨hrespects', heq'⟩ := hf _ a (Nat.le_trans hle hbecomes.nextScope_le) hQ mid
      (hbecomes.scope.trans hcur) (Nat.le_refl _) hbecomes.fits
    exact ⟨hrespects'.mono hbecomes, heq'⟩
  | failed e mid =>
    rw [ho] at hrespects
    exact ⟨.failed (hrespects.becomes rfl), rfl⟩
  | outOfFuel => exact ⟨.outOfFuel, rfl⟩

/-- The current scope is there, and the view shows it. -/
theorem Respects.of_current {r r' : Run α}
    (h : ∀ k, n ≤ k → V.Shows k cur → r.Respects V cur k Q r') : r.Respects V cur n Q r' := by
  intro m hcur hle hm
  exact h m.nextScope hle (hcur ▸ hm.scope) m hcur (Nat.le_refl _) hm

/-- Under the view the number of the current scope is that of the scope behind it. -/
theorem Respects.currentScope {f f' : ScopeId → Run β}
    (hf : (f cur).Respects V cur n R (f' (V.through cur))) :
    (currentScope >>= f).Respects V cur n R (currentScope >>= f') := by
  intro m hcur hle hm
  subst hcur
  exact hf m rfl hle hm

/-- The view shows a scope that has just been opened, and does not look through it. -/
theorem Respects.openScope {o o' : ScopeId} {f f' : ScopeId → Run β} (ho : V.Shows n o)
    (ho' : V.through o = o')
    (hf : ∀ k id, n ≤ k → V.Shows k id → V.through id = id →
      (f id).Respects V cur k R (f' id)) :
    (openScope o >>= f).Respects V cur n R (openScope o' >>= f') := by
  intro m hcur hle hm
  subst ho'
  obtain ⟨hvisible, hthrough⟩ := hm.store.unopened _ (Nat.le_refl _)
  have hopened := Machine.Becomes.opened hm (ho.mono hle)
  have hnew : V.Shows (m.opened o).nextScope m.nextScope :=
    ⟨by rw [Machine.nextScope_opened]; exact Nat.lt_succ_self _, hvisible⟩
  obtain ⟨hrespects, heq⟩ := hf _ m.nextScope (Nat.le_trans hle hopened.nextScope_le) hnew
    hthrough (m.opened o) hcur (Nat.le_refl _) hopened.fits
  refine ⟨hrespects.mono hopened, ?_⟩
  rw [Machine.through_opened] at heq
  have hid : (m.through V).nextScope = m.nextScope := Machine.nextScope_through V m
  change f' (m.through V).nextScope ((m.through V).opened (V.through o)) = _
  rw [hid, heq]
  rfl

/-- The scope is one through which the view does not look, so that it is current in both machines.
-/
theorem Respects.within {r r' : Run α} {scope : ScopeId} (hscope : V.Shows n scope)
    (hthrough : V.through scope = scope) (hr : r.Respects V scope n Q r') :
    (within scope r).Respects V cur n Q (within scope r') := by
  intro m _ hle hm
  obtain ⟨hrespects, heq⟩ := hr (m.inScope scope) rfl hle ⟨hm.store, hscope.mono hle⟩
  -- The scope from before fits still, because scopes only become more.
  have hback : ∀ {after : Machine}, (m.inScope scope).Becomes V after →
      m.Becomes V (after.inScope m.scope) := fun hafter =>
    ⟨⟨hafter.fits.store, hm.scope.mono hafter.nextScope_le⟩, rfl, hafter.nextScope_le,
      hafter.hidden⟩
  have hinside : (m.through V).inScope scope = (m.inScope scope).through V := by
    simp only [Machine.through, Machine.inScope, hthrough]
  rw [within_apply, within_apply]
  change ((r (m.inScope scope)).mapMachine _).Respects V m Q ∧
    (r' ((m.through V).inScope scope)).mapMachine _ =
      ((r (m.inScope scope)).mapMachine _).mapMachine _
  rw [hinside, heq]
  cases ho : r (m.inScope scope) with
  | ok a after =>
    rw [ho] at hrespects
    obtain ⟨hbecomes, hQ⟩ := hrespects.of_ok
    exact ⟨.ok (hback hbecomes) hQ, rfl⟩
  | failed e after =>
    rw [ho] at hrespects
    exact ⟨.failed (hback (hrespects.becomes rfl)), rfl⟩
  | outOfFuel => exact ⟨.outOfFuel, rfl⟩

/-- What is found fits, because it is bound in a scope that the view shows. -/
theorem Respects.get (name : Token) :
    (get name).Respects V cur n (Value.Fits V) (get name) := by
  intro m _ _ hm
  have hlookup := hm.store.lookup?_through hm.scope.visible name.lexeme
  simp only [Run.get, Store.get, Machine.through, hlookup]
  cases hv : m.store.lookup? m.scope name.lexeme with
  | none => exact ⟨.failed (.refl hm), rfl⟩
  | some v => exact ⟨.ok (.refl hm) (hm.store.lookup? hm.scope.visible hv), rfl⟩

/-- A name may be declared in a scope that the view shows and does not look through. Whether it is
free there, the view does not change. -/
theorem Respects.define {scope : ScopeId} (hscope : V.Shows n scope)
    (hthrough : V.through scope = scope) (name : Token) (hv : v.Fits V n) :
    (define scope name v).Respects V cur n (fun _ _ => True) (define scope name v) := by
  intro m _ hle hm
  simp only [Run.define, Store.checkFree, Machine.through, Store.binds_through]
  split
  · rename_i hfree
    refine ⟨.ok (.of_modify hm hscope.visible (fun s hs => hs.insert hthrough (hv.mono hle)) rfl
      rfl) trivial, ?_⟩
    simp only [Outcome.mapMachine, Machine.through, Machine.note, Store.through_insert]
  · exact ⟨.failed (.refl hm), rfl⟩

/-- The name is bound in the same scope for both, and that is never one that is looked through,
since these are empty. -/
theorem Respects.assign (name : Token) (hv : v.Fits V n) :
    (assign name v).Respects V cur n (fun _ _ => True) (assign name v) := by
  intro m _ hle hm
  have hbinder := hm.store.binder?_through hm.scope.visible name.lexeme
  simp only [Run.assign, Store.binder, Machine.through, hbinder]
  cases hj : m.store.binder? m.scope name.lexeme with
  | none => exact ⟨.failed (.refl hm), rfl⟩
  | some j =>
    refine ⟨.ok (.of_modify hm (hm.store.binder? hm.scope.visible hj)
      (fun s hs => hs.replace (hv.mono hle)) rfl rfl) trivial, ?_⟩
    simp only [Outcome.mapMachine, Machine.through, Store.through_replace]

end Run

/-! ## Operators -/

/-- What obeys every policy is no function. -/
theorem Value.fits_of_obeys {v : Value} (h : ∀ P, v.Obeys P) : v.Fits V n := by
  refine fits_of_closure?_none ?_
  cases v with
  | callable c =>
    cases c with
    | native f => rfl
    | function f =>
      have hnone := h ⟨fun _ => True, fun _ => True, fun _ => True, fun _ => True, fun _ => True,
        fun _ => False⟩
      exact hnone.1.elim
  | _ => rfl

/-- What is called is the function itself that the expression evaluates to. -/
theorem Operator.callee_eq {paren : Token} {v : Value} {args : Nat} {c : Callable}
    (h : callee paren v args = .ok c) : v = .callable c := by
  unfold callee at h
  cases v with
  | callable c' =>
    simp only [Value.callable?] at h
    split at h
    · cases h
      rfl
    · cases h
  | _ => cases h

/-! ## Trees -/

def Flow.Fits (V : View) (n : Nat) : Flow → Prop
  | .next => True
  | .returned v => v.Fits V n

theorem Flow.Fits.mono {flow : Flow} {k : Nat} (h : flow.Fits V n) (hle : n ≤ k) :
    flow.Fits V k := by
  cases flow with
  | next => trivial
  | returned v => exact Value.Fits.mono h hle

/-- Calls of functions that fit, with arguments that fit, respect the view. -/
def CallsRespect (V : View) (apply : Callable → List Value → Run Value) : Prop :=
  ∀ cur n c args, (Value.callable c).Fits V n → (∀ v ∈ args, v.Fits V n) →
    (apply c args).Respects V cur n (Value.Fits V) (apply c args)

section
variable {apply : Callable → List Value → Run Value}

mutual

/-- Expressions respect every view if calls do: they open no scopes themselves. -/
theorem evaluate_respects (h : CallsRespect V apply) : (e : Expr) → {n : Nat} →
    (evaluate apply e).Respects V cur n (Value.Fits V) (evaluate apply e)
  | .literal value, _ => by
    rw [evaluate]
    exact .pure fun _ _ => Value.fits_ofLiteral value
  | .var name, _ => by rw [evaluate]; exact .get name
  | .assign name e, _ => by
    rw [evaluate]
    refine .bind (evaluate_respects h e) fun k v _ hv => ?_
    -- The value still fits when it has been assigned, as the result.
    exact .bind (.assign name hv) fun k' _ hle _ =>
      .pure fun k'' hle' => hv.mono (Nat.le_trans hle hle')
  | .unary op e, _ => by
    rw [evaluate]
    exact .bind (evaluate_respects h e) fun _ _ _ _ => .ofExcept fun _ _ _ hok =>
      Value.fits_of_obeys fun _ => Operator.unary_obeys hok
  | .binary l op r, _ => by
    rw [evaluate]
    exact .bind (evaluate_respects h l) fun _ _ _ _ => .bind (evaluate_respects h r)
      fun _ _ _ _ => .ofExcept fun _ _ _ hok =>
        Value.fits_of_obeys fun _ => Operator.binary_obeys hok
  | .logical l op r, _ => by
    rw [evaluate]
    refine .bind (evaluate_respects h l) fun k x _ hx => ?_
    refine .bind (Q := fun _ _ => True) (.ofExcept fun _ _ _ _ => trivial)
      fun k' decided hle _ => ?_
    split
    · exact .pure fun k'' hle' => hx.mono (Nat.le_trans hle hle')
    · exact evaluate_respects h r
  | .group e, _ => by rw [evaluate]; exact evaluate_respects h e
  | .call e paren args, _ => by
    rw [evaluate]
    refine .bind (evaluate_respects h e) fun k f _ hf => ?_
    refine .bind (evaluateAll_respects h args) fun k' vs hle hvs => ?_
    refine .bind (Q := fun k c => (Value.callable c).Fits V k)
      (.ofExcept fun k'' c hle' hok => ?_) fun k'' c hle' hc => ?_
    -- The function was evaluated before the arguments, and still fits.
    · obtain rfl := Operator.callee_eq hok
      exact hf.mono (Nat.le_trans hle hle')
    refine .bind (.note _) fun k''' _ hle'' _ => ?_
    exact h cur k''' c vs (hc.mono hle'') fun v hv => (hvs v hv).mono (Nat.le_trans hle' hle'')

theorem evaluateAll_respects (h : CallsRespect V apply) : (es : List Expr) → {n : Nat} →
    (evaluateAll apply es).Respects V cur n (fun k vs => ∀ v ∈ vs, v.Fits V k)
      (evaluateAll apply es)
  | [], _ => by rw [evaluateAll]; exact .pure (by simp)
  | e :: es, _ => by
    rw [evaluateAll]
    refine .bind (evaluate_respects h e) fun k v _ hv => ?_
    refine .bind (evaluateAll_respects h es) fun k' vs hle hvs => .pure fun k'' hle' => ?_
    intro w hw
    obtain rfl | hw := List.mem_cons.1 hw
    · exact hv.mono (Nat.le_trans hle hle')
    · exact (hvs w hw).mono hle'

end

theorem evaluateOption_respects (h : CallsRespect V apply) (e : Option Expr) :
    (evaluateOption apply e).Respects V cur n (Value.Fits V) (evaluateOption apply e) := by
  cases e with
  | none => exact .pure fun _ _ => Value.fits_of_closure?_none rfl
  | some e => exact evaluate_respects h e

/-- A loop respects the view if its condition and its body do. -/
theorem repeatWhile_respects {cond : Run Value} {body : Run Flow}
    (hcond : ∀ n, cond.Respects V cur n (Value.Fits V) cond)
    (hbody : ∀ n, body.Respects V cur n (Flow.Fits V) body) (fuel n : Nat) :
    (repeatWhile cond body fuel).Respects V cur n (Flow.Fits V) (repeatWhile cond body fuel) := by
  induction fuel generalizing n with
  | zero => exact .exhausted
  | succ fuel ih =>
    refine .bind (hcond n) fun k v _ _ => ?_
    split
    · refine .bind (hbody k) fun k' flow _ hflow => ?_
      cases flow with
      | next => exact ih k'
      | returned v => exact .pure fun _ hle => hflow.mono hle
    · exact .pure fun _ _ => trivial

mutual

/-- In a scope that is looked through, only a statement that declares nothing respects the view. -/
theorem execute_respects (h : CallsRespect V apply) {fuel : Nat} : (s : Stmt) → {cur : ScopeId} →
    {n : Nat} → (V.through cur = cur ∨ s.declared = []) →
    (execute apply fuel s).Respects V cur n (Flow.Fits V) (execute apply fuel s)
  | .expr e, _, _, _ => by
    rw [execute]
    exact .bind (evaluate_respects h e) fun _ _ _ _ => .pure fun _ _ => trivial
  | .print e, _, _, _ => by
    rw [execute]
    exact .bind (evaluate_respects h e) fun _ v _ _ => .bind (.write _) fun _ _ _ _ =>
      .pure fun _ _ => trivial
  | .var name initializer, cur, _, hs => by
    rw [execute]
    have hcur : V.through cur = cur := hs.resolve_right (by simp [Stmt.declared])
    refine .bind (evaluateOption_respects h initializer) fun k v _ hv => .currentScope ?_
    rw [hcur]
    refine .of_current fun k' hle hshows => ?_
    exact .bind (.define hshows hcur name (hv.mono hle)) fun _ _ _ _ => .pure fun _ _ => trivial
  | .block body, _, _, _ => by
    rw [execute]
    exact .of_current fun k _ hshows => .currentScope <| .openScope hshows rfl
      fun k' id _ hid hthrough => .within hid hthrough (executeAll_respects h body (.inl hthrough))
  | .branch cond thenBranch none, _, _, hs => by
    rw [execute]
    refine .bind (evaluate_respects h cond) fun k v _ _ => ?_
    split
    · exact execute_respects h thenBranch hs
    · exact .pure fun _ _ => trivial
  | .branch cond thenBranch (some elseBranch), _, _, hs => by
    rw [execute]
    rw [Stmt.declared, List.append_eq_nil_iff] at hs
    refine .bind (evaluate_respects h cond) fun k v _ _ => ?_
    split
    · exact execute_respects h thenBranch (hs.imp_right And.left)
    · exact execute_respects h elseBranch (hs.imp_right And.right)
  | .loop cond body, _, n, hs => by
    rw [execute]
    exact repeatWhile_respects (fun _ => evaluate_respects h cond)
      (fun _ => execute_respects h body hs) fuel n
  | .function name params body, cur, _, hs => by
    rw [execute]
    have hcur : V.through cur = cur := hs.resolve_right (by simp [Stmt.declared])
    refine .of_current fun k _ hshows => .currentScope ?_
    rw [hcur]
    -- The function that is bound refers to the scope in which it is bound.
    refine .bind (.define hshows hcur name ?_) fun _ _ _ _ => .pure fun _ _ => trivial
    intro c hc
    cases hc
    exact ⟨hshows, hcur⟩
  | .ret keyword value, _, _, _ => by
    rw [execute]
    exact .bind (evaluateOption_respects h value) fun _ v _ hv => .pure fun _ hle => hv.mono hle

/-- One statement after the other, in a scope that the view does not look through or without
declarations. -/
theorem executeAll_respects (h : CallsRespect V apply) {fuel : Nat} : (ss : List Stmt) →
    {cur : ScopeId} → {n : Nat} → (V.through cur = cur ∨ Stmt.declaredAll ss = []) →
    (executeAll apply fuel ss).Respects V cur n (Flow.Fits V) (executeAll apply fuel ss)
  | [], _, _, _ => by rw [executeAll]; exact .pure fun _ _ => trivial
  | s :: rest, _, _, hss => by
    rw [executeAll]
    rw [Stmt.declaredAll, List.append_eq_nil_iff] at hss
    refine .bind (execute_respects h s (hss.imp_right And.left)) fun k flow _ hflow => ?_
    cases flow with
    | next => exact executeAll_respects h rest (hss.imp_right And.right)
    | returned v => exact .pure fun _ hle => hflow.mono hle

end

end

/-! ## Calls -/

/-- Native functions do not touch scopes. -/
theorem nativeCall_respects (f : Native) (args : List Value) :
    (f.call args).Respects V cur n (Value.Fits V) (f.call args) := by
  cases f with
  | clock =>
    exact .bind .readClock fun _ _ _ _ => .pure fun _ _ => Value.fits_of_closure?_none rfl
  | write =>
    refine .bind (Q := fun _ _ => True) ?_ fun _ _ _ _ =>
      .pure fun _ _ => Value.fits_of_closure?_none rfl
    induction args generalizing n with
    | nil => exact .pure fun _ _ => trivial
    | cons v vs ih => exact .bind (.write _) fun _ _ _ _ => ih
  | writeLine =>
    exact .bind (.write _) fun _ _ _ _ => .pure fun _ _ => Value.fits_of_closure?_none rfl

/-- Parameters are declared in the scope of the call, which is new and so not looked through. -/
theorem bindParams_respects {scope : ScopeId} (hscope : V.Shows n scope)
    (hthrough : V.through scope = scope) (params : List Token) {args : List Value}
    (hargs : ∀ v ∈ args, v.Fits V n) :
    (bindParams scope params args).Respects V cur n (fun _ _ => True)
      (bindParams scope params args) := by
  induction params generalizing n args with
  | nil => exact .pure fun _ _ => trivial
  | cons p ps ih =>
    cases args with
    | nil => exact .pure fun _ _ => trivial
    | cons v vs =>
      refine .bind (.define hscope hthrough p (hargs v List.mem_cons_self)) fun k _ hle _ => ?_
      exact ih (hscope.mono hle) fun w hw => (hargs w (List.mem_cons_of_mem v hw)).mono hle

/-- Calls respect every view, by induction on the fuel. The scope of the call lies in that of the
function, wherever it is called. -/
theorem call_respects (V : View) (fuel : Nat) : CallsRespect V (call fuel) := by
  induction fuel with
  | zero =>
    intro cur n c args _ _
    cases c with
    | native f => exact nativeCall_respects f args
    | function f => exact .exhausted
  | succ fuel ih =>
    intro cur n c args hc hargs
    cases c with
    | native f => exact nativeCall_respects f args
    | function f =>
      obtain ⟨hclosure, hthrough⟩ := hc f.closure rfl
      refine .openScope hclosure hthrough fun k id hle hid hthrough' => ?_
      refine .bind (bindParams_respects hid hthrough' f.params
        fun v hv => (hargs v hv).mono hle) fun k' _ hle' _ => ?_
      refine .bind (.within (hid.mono hle') hthrough'
        (executeAll_respects ih f.body (.inl hthrough'))) fun k'' flow _ hflow => ?_
      cases flow with
      | next => exact .pure fun _ _ => Value.fits_of_closure?_none rfl
      | returned v => exact .pure fun _ hle => Value.Fits.mono hflow hle

end Treewalk
