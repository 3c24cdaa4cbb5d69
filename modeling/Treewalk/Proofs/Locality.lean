import Treewalk.Proofs.Closed
import Treewalk.Proofs.Tasks
import Treewalk.Proofs.Views.Session

/-!
# Locality

What a task does depends only on the scopes that it can reach, and it changes no other ones. The
scopes that can be reached are those to which links and functions lead from the current scope, or,
in the case of a call, from the function and the arguments alone.

What can be reached changes while a task goes on. So the proof does not follow it, but takes the
scopes that can be reached at the start as what a view shows, to which all new scopes belong from
then on. A run respects the view and leaves alone what it hides. And two machines that agree on what
the view shows are alike under the pairing of these scopes with themselves, to which pairs of new
scopes are added.
-/

namespace Treewalk

/-! ## Scopes that can be reached -/

/-- The scope can be reached from a scope and some values. -/
inductive Store.Reached (st : Store) (start : Option ScopeId) (vs : List Value) :
    ScopeId → Prop where
  | start {i} : i ∈ start → Reached st start vs i
  | value {v c} : v ∈ vs → c ∈ v.closure? → Reached st start vs c
  | enclosing {i o} : Reached st start vs i → st.LiesIn i o → Reached st start vs o
  | bound {i s b c} : Reached st start vs i → st.scope? i = some s → b ∈ s.bindings →
      c ∈ b.2.closure? → Reached st start vs c

/-- Of the first `n` scopes the view shows only some. -/
def View.only (R : ScopeId → Prop) (n : Nat) : View :=
  .hide fun i => i < n ∧ ¬R i

variable {R : ScopeId → Prop} {L : Likeness}

theorem Value.fits_only {v : Value} {n : Nat} (h : ∀ c ∈ v.closure?, R c)
    (hlt : ∀ i, R i → i < n) : v.Fits (.only R n) n :=
  fun c hc => ⟨⟨hlt c (h c hc), fun hhidden => hhidden.2 (h c hc)⟩, rfl⟩

/-- Nothing leads out of what can be reached. -/
theorem Machine.WellFormed.closed_reached {m : Machine} (h : m.WellFormed) {start : Option ScopeId}
    {vs : List Value} (hstart : ∀ i ∈ start, i < m.nextScope)
    (hvs : ∀ v ∈ vs, ∀ c ∈ v.closure?, c < m.nextScope) :
    m.store.Closed (m.store.Reached start vs) where
  lt_size i hi := by
    induction hi with
    | start hi => exact hstart _ hi
    | value hv hc => exact hvs _ hv _ hc
    | enclosing _ hlies ih => exact Nat.lt_trans (h.enclosing _ _ hlies) ih
    | bound _ hs hb hc => exact h.closures _ _ hs _ hb _ hc
  enclosing i o hi hlies := ⟨h.enclosing i o hlies, .enclosing hi hlies⟩
  outermost i s _ hs := h.outermost i s hs
  bound i s hi hs b hb c := .bound hi hs hb

namespace Store

variable {st st' : Store}

/-- A set of scopes that nothing leads out of can be what a view shows. -/
theorem Closed.fits (h : st.Closed R) : st.Fits (.only R st.scopes.size) := by
  refine ⟨fun i s hi hs => ?_, fun i hle => ⟨fun hhidden => ?_, rfl⟩⟩
  -- A scope that is there and not hidden is one of the set.
  · have hreached : R i := Classical.byContradiction fun hnot => hi ⟨lt_size_of_scope? hs, hnot⟩
    refine ⟨fun b hb => Value.fits_only (h.bound i s hreached hs b hb) h.lt_size, fun o ho => ?_,
      h.outermost i s hreached hs, fun hne => (hne rfl).elim⟩
    obtain ⟨hlt, ho⟩ := h.enclosing i o hreached ⟨s, hs, ho⟩
    exact ⟨hlt, fun hhidden => hhidden.2 ho⟩
  · exact Nat.not_lt.2 hle hhidden.1

end Store

/-! ## What views show of pairs -/

/-- The pairs of which the views show both scopes. -/
def Pairing.restrict (σ : Pairing) (V V' : View) : Pairing where
  Pairs i i' := σ.Pairs i i' ∧ ¬V.hidden i ∧ ¬V'.hidden i'
  oneToOne h h' := σ.oneToOne h.1 h'.1

variable {σ : Pairing} {V V' : View} {n n' : Nat}

/-- Values that fit the views are alike up to the scopes that these show. -/
theorem Value.Like.restrict {v v' : Value} (h : v.Like L σ v') (hv : v.Fits V n)
    (hv' : v'.Fits V' n') : v.Like L (σ.restrict V V') v' := by
  cases h with
  | null => exact .null
  | bool b => exact .bool b
  | number x => exact .number x
  | string s => exact .string s
  | callable h =>
    cases h with
    | native f => exact .callable (.native f)
    | @function f f' hname hparams hbody hclosure =>
      exact .callable (.function hname hparams hbody
        ⟨hclosure, (hv f.closure rfl).1.visible, (hv' f'.closure rfl).1.visible⟩)

/-- From a pair that the views show one comes only to such pairs. -/
theorem Store.Like.restrict {st st' : Store} (h : st.Like L σ st') (hst : st.Fits V)
    (hst' : st'.Fits V') : st.Like L (σ.restrict V V') st' := by
  rintro i i' ⟨hpair, hi, hi'⟩
  obtain ⟨s, s', hs, hs', hlike⟩ := h i i' hpair
  have hfits := hst.scopes i s hi hs
  have hfits' := hst'.scopes i' s' hi' hs'
  refine ⟨s, s', hs, hs', ?_, ?_⟩
  · exact forall₂_of_mem hlike.bindings fun b hb b' hb' h =>
      ⟨h.1, h.2.restrict (hfits.values b hb) (hfits'.values b' hb')⟩
  · obtain ⟨ho, ho'⟩ | ⟨o, o', ho, ho', hpair', hlt, hlt'⟩ := optionRel_cases hlike.enclosing
    · rw [ho, ho']
      exact .none
    · rw [ho, ho']
      exact .some ⟨⟨hpair', (hfits.enclosing o ho).2, (hfits'.enclosing o' ho').2⟩, hlt, hlt'⟩

/-! ## Runs in machines that agree -/

/-- Two machines have become others, and these have the same in the scopes of `R`, up to the
numbers of scopes that were opened on the way: each scope of `R` corresponds to itself, and
otherwise only new scopes correspond. They have written the same meanwhile. -/
structure Machine.Counterparts (R : ScopeId → Prop) (m m' : Machine) (σ : Pairing)
    (after after' : Machine) : Prop where
  old : ∀ i, R i → σ.Pairs i i
  pairs : ∀ i i', σ.Pairs i i' → i = i' ∧ R i ∨ m.nextScope ≤ i ∧ m'.nextScope ≤ i'
  store : after.store.Like .same σ after'.store
  written : ∃ ws, after.written = m.written ++ ws ∧ after'.written = m'.written ++ ws
  clock : after.clock.Alike after'.clock

/-- The two runs end in the same way: with values that are the same up to the numbers of new scopes,
with the same error, or out of fuel. -/
inductive Outcome.Counterparts (R : ScopeId → Prop) (m m' : Machine) :
    Outcome (List Value) → Outcome (List Value) → Prop where
  | ok {σ vs vs' after after'} : m.Counterparts R m' σ after after' →
      List.Forall₂ (Value.Like .same σ) vs vs' → Counterparts R m m' (.ok vs after) (.ok vs' after')
  | failed {σ e after after'} : m.Counterparts R m' σ after after' →
      Counterparts R m m' (.failed e after) (.failed e after')
  | outOfFuel : Counterparts R m m' .outOfFuel .outOfFuel

namespace Task

/-- The scope from which a task starts. A call starts from nothing but the function and the
arguments. -/
def start (m : Machine) : Task → Option ScopeId
  | .call _ _ => none
  | _ => some m.scope

/-- The task depends on the scopes of `R` only, and changes no other ones. -/
structure LocalTo (R : ScopeId → Prop) (k : Nat) (task : Task) (m : Machine) : Prop where
  unchanged : ∀ after ∈ (task.run k m).machine?, ∀ i < m.nextScope, ¬R i →
    after.store.scope? i = m.store.scope? i
  same : ∀ m' : Machine, task.start m' = task.start m → m.store.Agree R m'.store →
    m.clock.Alike m'.clock → (task.run k m).Counterparts R m m' (task.run k m')

end Task

section
variable {m m' : Machine} {task : Task}

theorem Store.Closed.fits_machine (h : m.store.Closed R) (hscope : R m.scope) :
    m.Fits (.only R m.nextScope) :=
  ⟨h.fits, h.lt_size _ hscope, fun hhidden => hhidden.2 hscope⟩

/-- Pairs that two views show are of the old scopes with themselves or of new scopes. -/
theorem Machine.counterparts_restrict {after after' : Machine} (hle : .diagonal R ≤ σ)
    (hafter : m.silenced.Becomes (.only R m.nextScope) after)
    (hafter' : m'.silenced.Becomes (.only R m'.nextScope) after')
    (hlike : after.Like .same σ after') :
    m.Counterparts R m' (σ.restrict (.only R m.nextScope) (.only R m'.nextScope))
      (after.behind m.written) (after'.behind m'.written) where
  old i hi := ⟨hle i i ⟨rfl, hi⟩, fun h => h.2 hi, fun h => h.2 hi⟩
  pairs := by
    rintro i i' ⟨hpair, hi, hi'⟩
    by_cases hold : R i
    · obtain rfl := (σ.oneToOne (hle i i ⟨rfl, hold⟩) hpair).1 rfl
      exact .inl ⟨rfl, hold⟩
    · by_cases hold' : R i'
      · obtain rfl := (σ.oneToOne (hle i' i' ⟨rfl, hold'⟩) hpair).2 rfl
        exact .inl ⟨rfl, hold'⟩
      · exact .inr ⟨Nat.le_of_not_lt fun h => hi ⟨h, hold⟩,
          Nat.le_of_not_lt fun h => hi' ⟨h, hold'⟩⟩
  store := hlike.store.restrict hafter.fits.store hafter'.fits.store
  written := ⟨after.written, rfl, by rw [hlike.written]; rfl⟩
  clock := hlike.clock

/-- A task depends only on scopes from which no others can be reached, if the current scope is one
of them and the values that it starts with lead to them only. -/
theorem Task.localTo_of_closed (k : Nat) (h : m.store.Closed R) (hscope : R m.scope)
    (hvalues : ∀ v ∈ task.values, ∀ c ∈ v.closure?, R c) :
    (∀ after ∈ (task.run k m).machine?, ∀ i < m.nextScope, ¬R i →
      after.store.scope? i = m.store.scope? i) ∧
    ∀ m' : Machine, m'.scope = m.scope → m.store.Agree R m'.store →
      m.clock.Alike m'.clock → (task.run k m).Counterparts R m m' (task.run k m') := by
  -- All other scopes are hidden from the task by a view.
  have hrespects : ∀ {m : Machine}, m.store.Closed R → R m.scope →
      (task.run k m).Respects (.only R m.nextScope) m
        fun n vs => ∀ v ∈ vs, v.Fits (.only R m.nextScope) n := by
    intro m hclosed hscope
    have hfits : ∀ v ∈ task.values, v.Fits (.only R m.nextScope) m.nextScope :=
      fun v hv => Value.fits_only (hvalues v hv) hclosed.lt_size
    exact (Task.run_respects k rfl hfits m rfl (Nat.le_refl _) (hclosed.fits_machine hscope)).1
  refine ⟨fun after hafter i hlt hi => ?_, fun m' hscope' hagree hclock => ?_⟩
  · exact ((hrespects h hscope).becomes hafter).hidden i ⟨hlt, hi⟩
  · have h' := h.of_agree hagree
    -- The two machines may have written different things before, and these are set aside.
    have hleft := hrespects (m := m.silenced) h hscope
    have hright := hrespects (m := m'.silenced) h' (by
      change R m'.scope
      rwa [hscope'])
    have hlike : m.silenced.Like .same (.diagonal R) m'.silenced :=
      ⟨h.like hagree, ⟨hscope'.symm, hscope⟩, hclock, rfl⟩
    have hruns : (task.run k m.silenced).Like .same (.diagonal R)
        (fun σ => List.Forall₂ (Value.Like .same σ)) (task.run k m'.silenced) :=
      Task.run_like k (.of_values fun v hv => Value.like_diagonal (hvalues v hv)) _ (le_refl _) _ _
        hlike
    rw [(Task.run_built k task).apply_eq m, (Task.run_built k task).apply_eq m']
    obtain ⟨σ, vs, vs', after, after', hle, hvs, hlike, ho, ho'⟩ |
      ⟨σ, e, e', after, after', hle, he, hlike, ho, ho'⟩ | ⟨ho, ho'⟩ := hruns.cases_of
    · rw [ho] at hleft ⊢
      rw [ho'] at hright ⊢
      obtain ⟨hafter, hfits⟩ := hleft.of_ok
      obtain ⟨hafter', hfits'⟩ := hright.of_ok
      refine .ok (Machine.counterparts_restrict hle hafter hafter' hlike) ?_
      exact forall₂_of_mem hvs fun v hv v' hv' h => h.restrict (hfits v hv) (hfits' v' hv')
    · obtain rfl := he.eq
      rw [ho] at hleft ⊢
      rw [ho'] at hright ⊢
      exact .failed (Machine.counterparts_restrict hle (hleft.becomes rfl)
        (hright.becomes rfl) hlike)
    · rw [ho, ho']
      exact .outOfFuel

end

/-! ## Calls -/

/-- The run does the same whatever scope is current. -/
def Run.Placeless {α : Type} (r : Run α) : Prop :=
  ∀ m j, r (m.inScope j) = (r m).mapMachine (·.inScope j)

namespace Run

variable {α β : Type}

theorem Placeless.pure (a : α) : (pure a : Run α).Placeless := fun _ _ => rfl

theorem Placeless.write (w : Write) : (write w).Placeless := fun _ _ => rfl

/-- A sequence of runs that do not ask for the current scope. -/
theorem Placeless.bind {r : Run α} {f : α → Run β} (hr : r.Placeless)
    (hf : ∀ a, (f a).Placeless) : (r >>= f).Placeless := by
  intro m j
  rw [bind_apply, bind_apply, hr]
  cases r m with
  | ok a left => exact hf a left j
  | failed e left => rfl
  | outOfFuel => rfl

/-- Names are declared in a scope that is given. -/
theorem Placeless.define (scope : ScopeId) (name : Token) (v : Value) :
    (define scope name v).Placeless := by
  intro m j
  simp only [Run.define, Machine.inScope]
  split <;> rfl

/-- The scope that is entered is given, and the one from before comes back at the end. -/
theorem Placeless.within (scope : ScopeId) (r : Run α) : (within scope r).Placeless := by
  intro m j
  rw [within_apply, within_apply]
  change Outcome.mapMachine _ (r { m with scope }) = _
  cases r { m with scope } <;> rfl

end Run

/-- Native functions do not look at scopes. -/
theorem nativeCall_placeless (f : Native) (args : List Value) : (f.call args).Placeless := by
  cases f with
  | clock => exact fun _ _ => rfl
  | write =>
    refine .bind ?_ fun _ => .pure _
    induction args with
    | nil => exact .pure _
    | cons v vs ih => exact .bind (.write _) fun _ => ih
  | writeLine => exact .bind (.write _) fun _ => .pure _

theorem bindParams_placeless (scope : ScopeId) (params : List Token) (args : List Value) :
    (bindParams scope params args).Placeless := by
  induction params generalizing args with
  | nil => exact .pure ()
  | cons p ps ih =>
    cases args with
    | nil => exact .pure ()
    | cons v vs => exact .bind (.define scope p v) fun _ => ih vs

/-- A call does not look at the scope of the caller. -/
theorem call_placeless (fuel : Nat) (c : Callable) (args : List Value) :
    (call fuel c args).Placeless := by
  cases c with
  | native f => cases fuel <;> exact nativeCall_placeless f args
  | function f =>
    cases fuel with
    | zero => exact fun _ _ => rfl
    | succ fuel =>
      rw [call]
      refine .bind (fun _ _ => rfl) fun scope => .bind (bindParams_placeless scope f.params args)
        fun _ => .bind (.within scope _) fun flow => ?_
      cases flow with
      | next => exact .pure _
      | returned v => exact .pure _

/-- Natives leave the scopes alone. -/
theorem nativeCall_eq (f : Native) (args : List Value) {m m' : Machine}
    (hclock : m.clock.Alike m'.clock) : ∃ v ws clock clock', v.closure? = none ∧
      clock.Alike clock' ∧ f.call args m = .ok v { m with clock, written := m.written ++ ws } ∧
      f.call args m' = .ok v { m' with clock := clock', written := m'.written ++ ws } := by
  cases f with
  | clock =>
    refine ⟨.number m.clock.read.1, #[], m.clock.read.2, m'.clock.read.2, rfl, hclock.read.2,
      ?_, ?_⟩
    · simp only [Array.append_empty]
      rfl
    · simp only [Array.append_empty, hclock.read.1]
      rfl
  | write =>
    refine ⟨.null, (args.map fun v => Write.plain v.text).toArray, m.clock, m'.clock, rfl, hclock,
      ?_, ?_⟩
    · simp only [Native.call, Run.bind_apply, forM_write_eq]
      rfl
    · simp only [Native.call, Run.bind_apply, forM_write_eq]
      rfl
  | writeLine =>
    exact ⟨.null, #[.line (String.join (args.map Value.text))], m.clock, m'.clock, rfl, hclock, rfl,
      rfl⟩

/-- The scope that is current at the end does not matter to what has been left. -/
theorem Outcome.Counterparts.of_inScope {m m' : Machine} {o o' : Outcome (List Value)} {j : ScopeId}
    (h : (o.mapMachine (·.inScope j)).Counterparts R (m.inScope j) (m'.inScope j)
      (o'.mapMachine (·.inScope j))) : o.Counterparts R m m' o' := by
  cases o with
  | ok vs after =>
    cases o' with
    | ok vs' after' =>
      cases h with
      | ok hmachines hvs =>
        exact .ok ⟨hmachines.old, hmachines.pairs, hmachines.store, hmachines.written,
          hmachines.clock⟩ hvs
    | _ => cases h
  | failed e after =>
    cases o' with
    | failed e' after' =>
      cases h with
      | failed hmachines =>
        exact .failed ⟨hmachines.old, hmachines.pairs, hmachines.store, hmachines.written,
          hmachines.clock⟩
    | _ => cases h
  | outOfFuel =>
    cases o' with
    | outOfFuel => exact .outOfFuel
    | _ => cases h

namespace Task

variable {m : Machine}

/-- A native function reads the clock and writes, and leaves all scopes alone. -/
theorem localTo_of_native (k : Nat) (f : Native) (args : List Value) (h : m.store.Closed R) :
    (Task.call (.native f) args).LocalTo R k m := by
  have hrun : (Task.call (.native f) args).run k = f.call args >>= fun v => pure [v] := by
    cases k <;> rfl
  refine ⟨fun after hafter i _ _ => ?_, fun m' _ hagree hclock => ?_⟩
  · have hclock : m.clock.Alike m.clock := fun _ => rfl
    obtain ⟨v, ws, clock, -, -, -, hcall, -⟩ := nativeCall_eq f args hclock
    rw [hrun, Run.bind_apply, hcall] at hafter
    cases hafter
    rfl
  · obtain ⟨v, ws, clock, clock', hv, hclock', hcall, hcall'⟩ := nativeCall_eq f args hclock
    rw [hrun, Run.bind_apply, Run.bind_apply, hcall, hcall']
    -- Every scope of the set is paired with itself, and no scope is opened.
    have hcounterparts : m.Counterparts R m' (.diagonal R)
        { m with clock, written := m.written ++ ws }
        { m' with clock := clock', written := m'.written ++ ws } :=
      ⟨fun i hi => ⟨rfl, hi⟩, fun i i' => .inl, h.like hagree, ⟨ws, rfl, rfl⟩, hclock'⟩
    refine .ok hcounterparts (.cons (Value.like_diagonal fun c hc => ?_) .nil)
    rw [hv] at hc
    cases hc

/-- A function runs in its own scope, and not in that of the caller. -/
theorem localTo_of_function (k : Nat) (f : Function) (args : List Value) (h : m.store.Closed R)
    (hvalues : ∀ v ∈ (Task.call (.function f) args).values, ∀ c ∈ v.closure?, R c) :
    (Task.call (.function f) args).LocalTo R k m := by
  have hplace : ((Task.call (.function f) args).run k).Placeless :=
    .bind (call_placeless k _ args) fun _ => .pure _
  obtain ⟨hunchanged, hsame⟩ := localTo_of_closed (m := m.inScope f.closure) k h
    (hvalues _ List.mem_cons_self f.closure rfl) hvalues
  refine ⟨fun after hafter => ?_, fun m' _ hagree hclock => ?_⟩
  · refine hunchanged (after.inScope f.closure) ?_
    rw [hplace]
    cases ho : (Task.call (.function f) args).run k m with
    | outOfFuel => rw [ho] at hafter; cases hafter
    | _ => rw [ho] at hafter; cases hafter; rfl
  · have hruns := hsame (m'.inScope f.closure) rfl hagree hclock
    rw [hplace, hplace] at hruns
    exact hruns.of_inScope

end Task

/-- Execution is local.

* A task leaves all scopes as they are that it cannot reach at its start. In two machines that agree
  on those that it can reach it ends in the same way, with the same result, writes the same and
  leaves the same in these scopes, up to the numbers of scopes that are opened meanwhile. A
  statement reaches what can be reached from the current scope, and a call what can be reached from
  the function and the arguments.
* A call does the same whatever the scope of the caller is. -/
theorem execution_is_local :
    (∀ m : Machine, m.WellFormed → ∀ task : Task,
      (∀ v ∈ task.values, ∀ c ∈ v.closure?, c < m.nextScope) →
      ∀ fuel, task.LocalTo (m.store.Reached (task.start m) task.values) fuel m) ∧
    ∀ fuel c args (m : Machine) caller,
      call fuel c args (m.inScope caller) = (call fuel c args m).mapMachine (·.inScope caller) := by
  refine ⟨fun m hm task hvalues fuel => ?_, fun fuel c args => call_placeless fuel c args⟩
  have hclosed : m.store.Closed (m.store.Reached (task.start m) task.values) := by
    refine hm.closed_reached (fun i hi => ?_) hvalues
    cases task with
    | call c args => cases hi
    | _ => cases hi; exact hm.current
  have hreached : ∀ v ∈ task.values, ∀ c ∈ v.closure?,
      m.store.Reached (task.start m) task.values c := fun v hv c hc => .value hv hc
  -- Only a call does not start from the current scope.
  have hcurrent : task.start m = some m.scope → (∀ m' : Machine, task.start m' = some m'.scope) →
      task.LocalTo (m.store.Reached (task.start m) task.values) fuel m := by
    intro hstart hstart'
    obtain ⟨hunchanged, hsame⟩ := Task.localTo_of_closed fuel hclosed (.start hstart) hreached
    refine ⟨hunchanged, fun m' hscope => hsame m' ?_⟩
    rw [hstart', hstart] at hscope
    exact Option.some.inj hscope
  cases task with
  | call c args =>
    cases c with
    | native f => exact Task.localTo_of_native fuel f args hclosed
    | function f => exact Task.localTo_of_function fuel f args hclosed hreached
  | _ => exact hcurrent rfl fun _ => rfl

/-- A function that was declared in the global scope is called from another scope and, in a machine
without that scope, from the global one. It opens scopes with different numbers, writes the same
and leaves the scope of the caller as it is. -/
theorem execution_is_local_for_print :
    let m' := Machine.initial (.startingAt 0)
    let m := (m'.opened Machine.globals).inScope 1
    let x : Token := ⟨.identifier, "x", none, 1⟩
    let task : Task := .call (.function ⟨x, [], [.var x none, .print (.literal .null)], 0⟩) []
    ∃ after after', m.WellFormed ∧ task.run 1 m = .ok [.null] after ∧
      task.run 1 m' = .ok [.null] after' ∧ after.nextScope = 3 ∧ after'.nextScope = 2 ∧
      after.store.scope? 1 = m.store.scope? 1 ∧
      Outcome.Counterparts (m.store.Reached none task.values) m m' (.ok [.null] after)
        (.ok [.null] after') := by
  intro m' m x task
  have hm : m.WellFormed := by
    have hinitial := Machine.initial_fits (.startingAt 0)
    have hopened := Machine.Becomes.opened hinitial hinitial.scope
    exact Machine.wellFormed_iff_fits.2 ⟨hopened.fits.store, by decide, id⟩
  have hclosure : ∀ v ∈ task.values, ∀ c ∈ v.closure?, c = 0 := by
    intro v hv c hc
    cases List.mem_singleton.1 hv
    cases hc
    rfl
  have hglobals : ∀ i, m.store.Reached none task.values i → i = 0 := by
    intro i hi
    induction hi with
    | start hstart => cases hstart
    | value hv hc => exact hclosure _ hv _ hc
    | enclosing _ hlies ih =>
      subst ih
      obtain ⟨s, hs, ho⟩ := hlies
      cases hs
      cases ho
    | bound _ hs hb hc ih =>
      subst ih
      cases hs
      rcases hb with _ | ⟨_, _ | ⟨_, _ | ⟨_, hb⟩⟩⟩
      · cases hc
      · cases hc
      · cases hc
      · cases hb
  obtain ⟨hunchanged, hsame⟩ := execution_is_local.1 m hm task (fun v hv c hc => by
    rw [hclosure v hv c hc]
    decide) 1
  refine ⟨_, _, hm, rfl, rfl, rfl, rfl, hunchanged _ rfl 1 (by decide) fun h => ?_, ?_⟩
  · cases hglobals 1 h
  · refine hsame m' rfl (fun i hi => ?_) fun _ => rfl
    obtain rfl := hglobals i hi
    rfl

end Treewalk
