import Treewalk.Proofs.Tasks
import Treewalk.Proofs.Views.Session
import Treewalk.Proofs.WellFormed

/-!
# The scopes of a session

Whatever a machine is asked to do, the scope that was current before is current afterwards, however
it ends (`Task.scope_of_run`). So a session is in the global scope between any two steps, and it
would be so if nothing were done about the scope behind a failure. The scopes themselves stay well
formed, not only between the steps but all along: in every machine in which something is started
while a step is taken, and in every machine that this leaves (`Session.Passes.fits`).
-/

namespace Treewalk

/-! ## Activities -/

namespace Activity

/-- The machine is well formed, and the values refer to scopes in it. -/
structure Fits (a : Activity) : Prop where
  machine : a.machine.Fits .plain
  values : ∀ v ∈ a.task.values, v.Fits .plain a.machine.nextScope

/-- What starts in a machine that fits starts in one that fits, with values that refer to scopes in
it. -/
theorem Fits.of_starts {a b : Activity} (ha : a.Fits) (h : a.Starts b) : b.Fits := by
  have hcall := fun k => call_respects .plain k
  obtain ⟨hm, hvalues⟩ := ha
  have hnone : ∀ {n : Nat} {v : Value}, v ∈ ([] : List Value) → v.Fits .plain n := by simp
  -- A scope that has just been opened is there.
  have hnew : ∀ (m : Machine) (o : ScopeId),
      View.Shows .plain (m.opened o).nextScope m.nextScope :=
    fun m o => ⟨by rw [Machine.nextScope_opened]; exact Nat.lt_succ_self _, id⟩
  -- A result that comes first leaves a machine that fits.
  have hok : ∀ {α : Type} {Q : Nat → α → Prop} {r : Run α} {m after : Machine} {x : α},
      r.Respects .plain m.scope m.nextScope Q r → m.Fits .plain → r m = .ok x after →
      m.Becomes .plain after ∧ Q after.nextScope x := by
    intro α Q r m after x hr hm heq
    have hrespects := (hr m rfl (Nat.le_refl _) hm).1
    rw [heq] at hrespects
    exact hrespects.of_ok
  cases h with
  | assigned | operand | binaryLeft | logicalLeft | grouped | callee | firstExpr | expr | printed
  | initializer | condition | loopCondition | returned | firstStmt => exact ⟨hm, fun _ => hnone⟩
  | binaryRight he | logicalRight he _ | arguments he | otherExprs he | thenBranch he _
  | elseBranch he _ | loopBody he _ =>
    exact ⟨(hok (evaluate_respects (hcall _) _) hm he).1.fits, fun _ => hnone⟩
  | called he hargs hc =>
    obtain ⟨hbecomes, hf⟩ := hok (evaluate_respects (hcall _) _) hm he
    obtain ⟨hbecomes', hvs⟩ := hok (evaluateAll_respects (hcall _) _) hbecomes.fits hargs
    refine ⟨⟨hbecomes'.fits.store, hbecomes'.fits.scope⟩, fun v hv => ?_⟩
    obtain rfl | hv := List.mem_cons.1 hv
    · rw [Operator.callee_eq hc] at hf
      exact hf.mono hbecomes'.nextScope_le
    · exact hvs v hv
  | block =>
    exact ⟨⟨(Machine.Becomes.opened hm hm.scope).fits.store, hnew _ _⟩, fun _ => hnone⟩
  | loopAgain he _ hs =>
    obtain ⟨hbecomes, -⟩ := hok (evaluate_respects (hcall _) _) hm he
    exact ⟨(hok (execute_respects (hcall _) _ (.inl rfl)) hbecomes.fits hs).1.fits, fun _ => hnone⟩
  | otherStmts hs =>
    exact ⟨(hok (execute_respects (hcall _) _ (.inl rfl)) hm hs).1.fits, fun _ => hnone⟩
  -- The closure is there because the function fits; the scope of the call is the newest one.
  | @body k f args m m₁ hbind =>
    obtain ⟨hclosure, -⟩ := hvalues _ List.mem_cons_self f.closure rfl
    have hopened := Machine.Becomes.opened hm hclosure
    obtain ⟨hbecomes, -⟩ := hok (bindParams_respects (hnew m f.closure) rfl f.params fun v hv =>
      (hvalues v (List.mem_cons_of_mem _ hv)).mono hopened.nextScope_le) hopened.fits hbind
    exact ⟨⟨hbecomes.fits.store, (hnew m f.closure).mono hbecomes.nextScope_le⟩, fun _ => hnone⟩

/-- What an activity that fits ends with fits too. -/
theorem Fits.respects {a : Activity} (h : a.Fits) : (a.task.run a.fuel a.machine).Respects .plain
    a.machine fun n vs => ∀ v ∈ vs, v.Fits .plain n :=
  (Task.run_respects a.fuel rfl h.values a.machine rfl (Nat.le_refl _) h.machine).1

/-- So does all that it leads to. -/
theorem Fits.of_leads {a b : Activity} (ha : a.Fits) (h : a.Leads b) : b.Fits := by
  induction h with
  | refl => exact ha
  | tail _ hstarts ih => exact ih.of_starts hstarts

end Activity

/-! ## Sessions -/

/-- Executes statements as `Machine.interpret` does, but does nothing about the scope behind a
failure. -/
def Machine.interpretInPlace (fuel : Nat) (statements : List Stmt) (m : Machine) : Outcome Unit :=
  match executeAll (call fuel) fuel statements (m.note (.interpreting statements.length)) with
  | .ok _ m => .ok () m
  | .failed e m => .failed e (m.note (.failed e))
  | .outOfFuel => .outOfFuel

theorem Machine.scope_of_executeAll {m after : Machine} {fuel : Nat} {statements : List Stmt}
    (h : after ∈ (executeAll (call fuel) fuel statements m).machine?) : after.scope = m.scope := by
  have hgrows : (executeAll (call fuel) fuel statements).Grows m.scope fun _ _ => True :=
    executeAll_grows (call_grows fuel) statements fun _ _ => trivial
  exact (hgrows m rfl after h).1

/-- The scope needs no restoring after a failure. -/
theorem Machine.interpret_eq_interpretInPlace {m : Machine} (h : m.scope = globals) (fuel : Nat)
    (statements : List Stmt) :
    m.interpret fuel statements = m.interpretInPlace fuel statements := by
  unfold interpret interpretInPlace
  cases ho : executeAll (call fuel) fuel statements (m.note (.interpreting statements.length)) with
  | ok flow left => rfl
  | failed e left =>
    -- The scope in which the failure has left the machine is the global one already.
    have hleft : left.scope = globals :=
      (scope_of_executeAll (m := m.note (.interpreting statements.length))
        (by rw [ho]; rfl)).trans h
    simp only [← hleft]
    rfl
  | outOfFuel => rfl

namespace Session

variable {allowed : Step → Prop} {m : Machine} {fuel : Nat}

/-- No step leaves another scope current than the global one. -/
theorem Step.Effect.scope_eq {step : Step} {after : Machine} (h : step.Effect fuel m after)
    (hm : m.scope = Machine.globals) : after.scope = Machine.globals := by
  cases h with
  | none halike => exact halike.scope.trans hm
  | @executed _ statements before _ _ hbefore hleaves =>
    obtain ⟨left, hleft, -, hscope | hscope⟩ := hleaves
    · rw [hscope, Machine.scope_of_executeAll hleft, hbefore.scope, hm]
    · exact hscope
  | reset => rfl
  | cleared | defined | assigned | provided => exact hm
  | called _ hafter =>
    exact (call_grows fuel m.scope (fun _ _ => True) _ _ m rfl _ hafter).1.trans hm

theorem Reachable.scope_eq (h : Reachable allowed m) : m.scope = Machine.globals :=
  h.invariant (fun _ => rfl) (fun _ hm => hm) fun _ _ _ _ _ hm heffect => heffect.scope_eq hm

theorem Reachable.fits (h : Reachable allowed m) : m.Fits .plain := by
  induction h with
  | initial clock => exact Machine.initial_fits clock
  | fresh _ ih => exact ⟨ih.store, ih.scope⟩
  | step _ _ hperform ih =>
    exact ((step_follows ⟨ih, rfl⟩ id _).2 _ hperform).fits

/-- The activity with which the work of a step begins. -/
inductive Step.Begins (m : Machine) : Step → Activity → Prop where
  | executes {step statements before k} : step.Executes statements → before.Alike m →
      Begins m step ⟨k, .executeAll statements, before⟩
  | calls {name args c k} : m.store.lookup? Machine.globals name = some (.callable c) →
      Begins m (.call name args) ⟨k, .call c (args.map HostValue.value), m⟩

/-- The activity is a part of the work of some step of some session. -/
def Undertakes (allowed : Step → Prop) (b : Activity) : Prop :=
  ∃ m step a, Reachable allowed m ∧ allowed step ∧ Step.Begins m step a ∧ a.Leads b

/-- Some session comes to the machine with these values at hand: between two steps, or when
something is started or ends while a step is taken. -/
inductive Passes (allowed : Step → Prop) : Machine → List Value → Prop where
  | between {m : Machine} : Reachable allowed m → Passes allowed m []
  | started {a} : Undertakes allowed a → Passes allowed a.machine a.task.values
  | ended {a vs after} : Undertakes allowed a → a.task.run a.fuel a.machine = .ok vs after →
      Passes allowed after vs
  | failed {a e after} : Undertakes allowed a → a.task.run a.fuel a.machine = .failed e after →
      Passes allowed after []

/-- Whatever is a part of a step starts in a machine that fits. -/
theorem Undertakes.fits {b : Activity} (h : Undertakes allowed b) : b.Fits := by
  obtain ⟨m, step, a, hm, -, hbegins, hleads⟩ := h
  refine Activity.Fits.of_leads ?_ hleads
  cases hbegins with
  | executes _ halike =>
    refine ⟨⟨?_, ?_⟩, fun v hv => by cases hv⟩
    · rw [halike.store]
      exact hm.fits.store
    · rw [Machine.nextScope, halike.store, halike.scope]
      exact hm.fits.scope
  | calls hlookup =>
    refine ⟨hm.fits, fun v hv => ?_⟩
    obtain rfl | hv := List.mem_cons.1 hv
    · exact hm.fits.store.lookup? id hlookup
    · exact HostValue.values_fit _ v hv

/-- At every point of a session the machine fits, and so do the values at hand. -/
theorem Passes.fits {vs : List Value} (h : Passes allowed m vs) :
    m.Fits .plain ∧ ∀ v ∈ vs, v.Fits .plain m.nextScope := by
  cases h with
  | between hm => exact ⟨hm.fits, fun v hv => by cases hv⟩
  | started ha => exact ⟨ha.fits.machine, ha.fits.values⟩
  | ended ha hrun =>
    have hrespects := ha.fits.respects
    rw [hrun] at hrespects
    obtain ⟨hbecomes, hvs⟩ := hrespects.of_ok
    exact ⟨hbecomes.fits, hvs⟩
  | failed ha hrun =>
    have hrespects := ha.fits.respects
    rw [hrun] at hrespects
    exact ⟨(hrespects.becomes rfl).fits, fun v hv => by cases hv⟩

end Session

/-- Scopes are restored, and they stay well formed.

* A statement, a list of statements, a call, and likewise an expression, leave the scope current
  that was current before, whether they end with a result, with a return or with an error.
* Between any two steps of a session the global scope is current. It would be so too if nothing were
  done about the scope behind a failure.
* At every point of a session, all scopes that the current scope, a link or a function refers to are
  there; links lead to older scopes and never back to where they started; and from every scope there
  is a chain of different scopes that ends with the global scope, along which names are looked up
  and assigned. -/
theorem scope_graph_is_kept :
    (∀ fuel (task : Task) m after, after ∈ (task.run fuel m).machine? → after.scope = m.scope) ∧
    (∀ allowed m, Session.Reachable allowed m → m.scope = Machine.globals ∧
      ∀ before : Machine, before.Alike m → ∀ fuel statements,
        before.interpret fuel statements = before.interpretInPlace fuel statements) ∧
    (∀ allowed m vs, Session.Passes allowed m vs →
      m.WellFormed ∧
      (∀ v ∈ vs, ∀ c ∈ v.closure?, c < m.nextScope) ∧
      (∀ i o, m.store.LiesIn i o → o < m.nextScope) ∧
      (∀ i, ¬Relation.TransGen m.store.LiesIn i i) ∧
      ∀ i < m.nextScope, ∃ is, m.store.Chain i is ∧ is.Nodup ∧
        is.getLast? = some Machine.globals ∧
        (∀ name, m.store.lookup? i name =
          is.findSome? fun j => (m.store.scope? j).bind (·.get? name)) ∧
        ∀ name, m.store.binder? i name = is.find? fun j => m.store.binds j name) := by
  refine ⟨fun fuel task m after => Task.scope_of_run fuel task, ?_, ?_⟩
  · intro allowed m hm
    refine ⟨hm.scope_eq, fun before halike fuel statements => ?_⟩
    exact Machine.interpret_eq_interpretInPlace (halike.scope.trans hm.scope_eq) fuel statements
  · intro allowed m vs hpasses
    obtain ⟨hfits, hvs⟩ := hpasses.fits
    -- All that follows is true of every well-formed machine.
    have hm := Machine.wellFormed_iff_fits.2 hfits
    refine ⟨hm, fun v hv => Value.fits_plain_iff.1 (hvs v hv), ?_, ?_, ?_⟩
    · rintro i o ⟨s, hs, ho⟩
      exact Nat.lt_trans (hm.enclosing i o ⟨s, hs, ho⟩) (Machine.lt_nextScope_of_scope? hs)
    · exact fun i hcycle => Nat.lt_irrefl i (hm.lt_of_transGen hcycle)
    · intro i hi
      obtain ⟨is, hchain, hsorted, -, hlast⟩ := hm.exists_chain hi
      exact ⟨is, hchain, hsorted.imp Nat.ne_of_gt, hlast, hchain.lookup?_eq hm,
        hchain.binder?_eq hm⟩

/-- A block that declares a name twice fails in its own scope. It leaves the global scope current,
and a chain leads there from the scope of the block. -/
theorem scope_graph_is_kept_by_failing_block :
    let x : Token := ⟨.identifier, "x", none, 1⟩
    ∃ after, (Session.Step.interpret [.block [.var x none, .var x none]]).perform 1
        (.initial (.startingAt 0)) = some (.failed (.alreadyDefined x), after) ∧
      after.scope = Machine.globals ∧ after.nextScope = 2 ∧ after.WellFormed ∧
      ∃ is, after.store.Chain 1 is ∧ is.Nodup ∧ is.getLast? = some Machine.globals := by
  intro x
  obtain ⟨after, hperform, hsize⟩ : ∃ after, (Session.Step.interpret
      [.block [.var x none, .var x none]]).perform 1 (.initial (.startingAt 0)) =
        some (.failed (.alreadyDefined x), after) ∧ after.nextScope = 2 := by
    refine ⟨_, rfl, ?_⟩
    rfl
  have hreachable : Session.Reachable (fun _ => True) after :=
    .step (.initial _) trivial hperform
  obtain ⟨-, hscope, hgraph⟩ := scope_graph_is_kept
  obtain ⟨hm, -, -, -, hchains⟩ := hgraph _ after [] (.between hreachable)
  obtain ⟨is, hchain, hnodup, hlast, -⟩ := hchains 1 (by rw [hsize]; decide)
  exact ⟨after, hperform, (hscope _ after hreachable).1, hsize, hm, is, hchain, hnodup, hlast⟩

end Treewalk
