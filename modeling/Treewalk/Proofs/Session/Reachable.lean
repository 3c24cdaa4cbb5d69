import Treewalk.Proofs.Machine.Activity
import Treewalk.Proofs.Units
import Treewalk.Session

/-!
# Machines that sessions reach

A session starts in a new machine and changes it step by step. `Step.Effect` says what a step can do
to the machine, and `Reachable` collects the machines that sessions of certain steps come to. What
every effect keeps holds in all of them. The first such fact is about policies: if all that the
steps execute obeys a policy, then all that is bound in any scope does, however long ago it was
declared.
-/

namespace Treewalk

namespace Machine

/-! ## Units -/

/-- The machine that has read a unit without errors and is about to execute its statements. -/
def ready (m : Machine) (source : String) : Machine :=
  let (scan, m) := m.scan source
  let m := scan.tokens.foldl (fun m t => m.note (.token t)) m
  let (program, m) := m.parse scan.tokens
  m.note (.interpreting program.statements.length)

/-- Reading writes into the log only. -/
theorem ready_alike (m : Machine) (source : String) : (m.ready source).Alike m := by
  refine alike_iff_unlogged_eq.2 ?_
  simp only [ready, parse, scan, unlogged_note, unlogged_foldl_note]

end Machine

/-- The machine that has scanned and parsed a unit. -/
def Machine.parsed (m : Machine) (source : String) : Machine :=
  ((m.scan source).2.parse (Treewalk.scan source).tokens).2

theorem Machine.parsed_alike (m : Machine) (source : String) : (m.parsed source).Alike m := by
  refine alike_iff_unlogged_eq.2 ?_
  simp only [parsed, parse, scan, unlogged_note, unlogged_foldl_note]

theorem Machine.Alike.refl (m : Machine) : m.Alike m :=
  ⟨rfl, rfl, rfl, rfl⟩

theorem Machine.Alike.note {m m' : Machine} (h : m.Alike m') (e : LogEntry) : (m.note e).Alike m' :=
  ⟨h.store, h.scope, h.clock, h.written⟩

/-- What the host learns when statements have been executed, and the machine that they leave. -/
def Outcome.reported : Outcome Flow → Option (Report × Machine)
  | ok _ m => some (⟨[]⟩, m)
  | failed e m => some (⟨[e.diagnostic]⟩, { m.note (.failed e) with scope := Machine.globals })
  | outOfFuel => none

/-- What statements leave once the host has been told: a failure is logged, and behind it the global
scope is current. -/
def Outcome.Leaves (o : Outcome Flow) (after : Machine) : Prop :=
  ∃ left ∈ o.machine?, after.Alike { left with scope := after.scope } ∧
    (after.scope = left.scope ∨ after.scope = Machine.globals)

/-- What a report leaves is what the statements have left, in the global scope after an error. -/
theorem Outcome.leaves_of_reported {o : Outcome Flow} {r : Report} {after : Machine}
    (h : o.reported = some (r, after)) : o.Leaves after := by
  cases o with
  | ok flow left =>
    cases h
    exact ⟨after, rfl, ⟨rfl, rfl, rfl, rfl⟩, .inl rfl⟩
  | failed e left =>
    cases h
    exact ⟨left, rfl, ⟨rfl, rfl, rfl, rfl⟩, .inr rfl⟩
  | outOfFuel => cases h

namespace Machine

/-- The same holds of statements that are executed as they are. -/
theorem leaves_of_interpret {fuel : Nat} {statements : List Stmt} {m after : Machine}
    (h : after ∈ (m.interpret fuel statements).machine?) :
    (executeAll (call fuel) fuel statements
      (m.note (.interpreting statements.length))).Leaves after := by
  simp only [interpret] at h
  cases ho : executeAll (call fuel) fuel statements (m.note (.interpreting statements.length)) with
  | ok flow left =>
    rw [ho] at h
    cases h
    exact ⟨after, rfl, ⟨rfl, rfl, rfl, rfl⟩, .inl rfl⟩
  | failed e left =>
    rw [ho] at h
    cases h
    exact ⟨left, rfl, ⟨rfl, rfl, rfl, rfl⟩, .inr rfl⟩
  | outOfFuel =>
    rw [ho] at h
    cases h

theorem interpret_error? (m : Machine) (fuel : Nat) (statements : List Stmt) :
    (m.interpret fuel statements).error? = (executeAll (call fuel) fuel statements
      (m.note (.interpreting statements.length))).error? := by
  unfold interpret
  cases executeAll (call fuel) fuel statements (m.note (.interpreting statements.length)) <;> rfl

/-- Running a unit without errors is executing its statements. -/
theorem run_of_parsesTo {source : String} {statements : List Stmt} (h : ParsesTo source statements)
    (m : Machine) (fuel : Nat) : m.run fuel source =
      (executeAll (call fuel) fuel statements (m.ready source)).reported := by
  simp only [run, ready, scan, parse, h.scan_errors, h.parse_errors, h.statements_eq, List.map_nil,
    List.append_nil, List.isEmpty_nil, if_true, interpret]
  cases executeAll (call fuel) fuel statements _ <;> rfl

/-- A unit with errors is not executed. -/
theorem run_of_errors {source : String} (h : ¬∃ statements, ParsesTo source statements)
    (m : Machine) (fuel : Nat) : ∃ after, after.Alike m ∧ m.run fuel source =
      some (⟨(Treewalk.scan source).errors.map LexicalError.diagnostic ++
        (Treewalk.parse (Treewalk.scan source).tokens).errors.map SyntaxError.diagnostic⟩,
        after) := by
  have hnonempty : ¬((Treewalk.scan source).errors.map LexicalError.diagnostic ++
      (Treewalk.parse (Treewalk.scan source).tokens).errors.map
        SyntaxError.diagnostic).isEmpty := by
    intro hempty
    rw [List.isEmpty_iff, List.append_eq_nil_iff, List.map_eq_nil_iff,
      List.map_eq_nil_iff] at hempty
    exact h ⟨_, hempty.1, hempty.2, rfl⟩
  refine ⟨_, ?_, if_neg hnonempty⟩
  refine alike_iff_unlogged_eq.2 ?_
  simp only [unlogged_note, unlogged_foldl_note]

end Machine

/-! ## Steps that run something -/

/-- The answer to a run, and the machine that the run leaves. -/
def Outcome.answered {α : Type} (ok : α → Session.Answer) (failed : RuntimeError → Session.Answer) :
    Outcome α → Option (Session.Answer × Machine)
  | .ok a m => some (ok a, m)
  | .failed e m => some (failed e, m)
  | .outOfFuel => none

namespace Outcome

variable {α : Type} {o : Outcome α} {ok : α → Session.Answer}
  {failed : RuntimeError → Session.Answer} {answer : Session.Answer} {after : Machine}

/-- An answer is about a result or an error. -/
theorem cases_of_answered (h : o.answered ok failed = some (answer, after)) :
    (∃ a, o = .ok a after ∧ answer = ok a) ∨ ∃ e, o = .failed e after ∧ answer = failed e := by
  cases o with
  | ok a left =>
    cases h
    exact .inl ⟨a, rfl, rfl⟩
  | failed e left =>
    cases h
    exact .inr ⟨e, rfl, rfl⟩
  | outOfFuel => cases h

/-- What a step leaves is what its run has left. -/
theorem machine?_of_answered (h : o.answered ok failed = some (answer, after)) :
    after ∈ o.machine? := by
  obtain ⟨a, rfl, -⟩ | ⟨e, rfl, -⟩ := cases_of_answered h
  · rfl
  · rfl

end Outcome

namespace Session

/-- A unit that is forced is executed in spite of its errors, which are counted. -/
theorem perform_force (fuel : Nat) (m : Machine) (source : String) :
    (Step.force source).perform fuel m =
      ((m.parsed source).interpret fuel (parse (scan source).tokens).statements).answered
        (fun _ => .forced ((scan source).errors.length + (parse (scan source).tokens).errors.length)
          none)
        (fun e => .forced
          ((scan source).errors.length + (parse (scan source).tokens).errors.length) (some e)) := by
  simp only [Step.perform, Machine.parsed, Machine.scan, Machine.parse]
  cases Machine.interpret fuel _ _ <;> rfl

theorem perform_interpret (fuel : Nat) (m : Machine) (statements : List Stmt) :
    (Step.interpret statements).perform fuel m =
      (m.interpret fuel statements).answered (fun _ => .done) .failed := by
  simp only [Step.perform]
  cases m.interpret fuel statements <;> rfl

theorem perform_define (fuel : Nat) (m : Machine) (name : Token) (value : HostValue) :
    (Step.define name value).perform fuel m =
      (Run.define Machine.globals name value.value m).answered (fun _ => .done) .failed := by
  simp only [Step.perform]
  cases Run.define Machine.globals name value.value m <;> rfl

theorem perform_call {m : Machine} {name : String} {c : Callable}
    (h : (m.store.lookup? Machine.globals name).bind Value.callable? = some c) (fuel : Nat)
    (args : List HostValue) : (Step.call name args).perform fuel m =
      (call fuel c (args.map HostValue.value) m).answered (fun v => .value (some v)) .failed := by
  simp only [Step.perform, h]
  cases call fuel c (args.map HostValue.value) m <;> rfl

theorem perform_call_none {m : Machine} {name : String}
    (h : (m.store.lookup? Machine.globals name).bind Value.callable? = none) (fuel : Nat)
    (args : List HostValue) : (Step.call name args).perform fuel m = some (.value none, m) := by
  simp only [Step.perform, h]

theorem lookup?_of_callable? {m : Machine} {name : String} {c : Callable}
    (h : (m.store.lookup? Machine.globals name).bind Value.callable? = some c) :
    m.store.lookup? Machine.globals name = some (.callable c) := by
  obtain ⟨v, hlookup, hcallable⟩ := Option.bind_eq_some_iff.1 h
  cases v <;> cases hcallable
  exact hlookup

/-! ## What a step does -/

/-- The step executes these statements. -/
inductive Step.Executes : Step → List Stmt → Prop where
  | run {source statements} : ParsesTo source statements → Executes (.run source) statements
  | force {source} : Executes (.force source) (parse (scan source).tokens).statements
  | interpret {statements} : Executes (.interpret statements) statements

/-- What a step can do to a machine, whatever it answers. -/
inductive Step.Effect (fuel : Nat) (m : Machine) : Step → Machine → Prop where
  | none {step after} : after.Alike m → Effect fuel m step after
  | executed {step statements before after} : step.Executes statements → before.Alike m →
      (executeAll (Treewalk.call fuel) fuel statements before).Leaves after →
      Effect fuel m step after
  | reset : Effect fuel m .reset m.reset
  | cleared : Effect fuel m .clear { m with store := m.store.clear Machine.globals }
  | defined {name value log} : ¬m.store.binds Machine.globals name.lexeme →
      Effect fuel m (.define name value)
        { m with store := m.store.insert Machine.globals name.lexeme value.value, log }
  | assigned {name value binder} : m.store.binder? Machine.globals name.lexeme = some binder →
      Effect fuel m (.assign name value)
        { m with store := m.store.replace binder name.lexeme value.value }
  | provided {name value} : Effect fuel m (.provide name value)
      { m with store := m.store.provide Machine.globals name value.value }
  | called {name args c after} : m.store.lookup? Machine.globals name = some (.callable c) →
      after ∈ (Treewalk.call fuel c (args.map HostValue.value) m).machine? →
      Effect fuel m (.call name args) after

/-- What a step does, read off its definition once and for all. All invariants of sessions follow
from the effects. -/
theorem effect_of_perform {fuel : Nat} {m after : Machine} {step : Step} {answer : Answer}
    (h : step.perform fuel m = some (answer, after)) :
    step.Effect fuel m after := by
  cases step with
  | run source =>
    obtain ⟨⟨r, _⟩, hrun, hafter⟩ := Option.map_eq_some_iff.1 h
    cases hafter
    by_cases hparses : ∃ statements, ParsesTo source statements
    · obtain ⟨statements, hparses⟩ := hparses
      rw [Machine.run_of_parsesTo hparses] at hrun
      exact .executed (.run hparses) (m.ready_alike source) (Outcome.leaves_of_reported hrun)
    · obtain ⟨_, halike, hrun'⟩ := Machine.run_of_errors hparses m fuel
      rw [hrun] at hrun'
      cases hrun'
      exact .none halike
  | force source =>
    rw [perform_force] at h
    exact .executed .force ((m.parsed_alike source).note _)
      (Machine.leaves_of_interpret (Outcome.machine?_of_answered h))
  | interpret statements =>
    rw [perform_interpret] at h
    exact .executed .interpret ((Machine.Alike.refl m).note _)
      (Machine.leaves_of_interpret (Outcome.machine?_of_answered h))
  | reset =>
    cases h
    exact .reset
  | clear =>
    cases h
    exact .cleared
  | lookup name =>
    cases h
    exact .none (.refl m)
  -- A name that is taken leaves the machine as it is.
  | define name value =>
    simp only [Step.perform, Run.define, Store.checkFree] at h
    by_cases hbound : m.store.binds Machine.globals name.lexeme
    · simp only [hbound, if_true] at h
      cases h
      exact .none (.refl m)
    · simp only [hbound] at h
      cases h
      exact .defined hbound
  | assign name value =>
    simp only [Step.perform, Store.assign, Store.binder] at h
    cases hbinder : m.store.binder? Machine.globals name.lexeme with
    | none =>
      rw [hbinder] at h
      cases h
      exact .none (.refl m)
    | some binder =>
      rw [hbinder] at h
      cases h
      exact .assigned hbinder
  | provide name value =>
    cases h
    exact .provided
  | call name args =>
    cases hc : (m.store.lookup? Machine.globals name).bind Value.callable? with
    | none =>
      rw [perform_call_none hc] at h
      cases h
      exact .none (.refl m)
    | some c =>
      rw [perform_call hc] at h
      exact .called (lookup?_of_callable? hc) (Outcome.machine?_of_answered h)
  | equal name other =>
    cases h
    exact .none (.refl m)

/-! ## Failures -/

/-- The answer tells the host about this error. -/
def Answer.Blames : Answer → RuntimeError → Prop
  | report r, e => e.diagnostic ∈ r.diagnostics
  | forced _ failure, e => failure = some e
  | failed e', e => e' = e
  | _, _ => False

/-- Where the error of a step comes from. -/
inductive Step.Fails (fuel : Nat) (m : Machine) : Step → RuntimeError → Prop where
  | executed {step statements before e} : step.Executes statements → before.Alike m →
      (executeAll (Treewalk.call fuel) fuel statements before).error? = some e →
      Fails fuel m step e
  | defined {name value e} : m.store.checkFree Machine.globals name = .error e →
      Fails fuel m (.define name value) e
  | assigned {name value e} : m.store.binder Machine.globals name = .error e →
      Fails fuel m (.assign name value) e
  | called {name args c e} : m.store.lookup? Machine.globals name = some (.callable c) →
      (Treewalk.call fuel c (args.map HostValue.value) m).error? = some e →
      Fails fuel m (.call name args) e

/-- A diagnostic keeps the wording of an error and its line, and so a report tells about an error up
to these. -/
theorem fails_of_blames {fuel : Nat} {m after : Machine} {step : Step} {answer : Answer}
    {e : RuntimeError} (h : step.perform fuel m = some (answer, after))
    (hblames : answer.Blames e) :
    ∃ e', step.Fails fuel m e' ∧ e'.diagnostic = e.diagnostic := by
  cases step with
  | run source =>
    obtain ⟨⟨r, _⟩, hrun, hafter⟩ := Option.map_eq_some_iff.1 h
    cases hafter
    by_cases hparses : ∃ statements, ParsesTo source statements
    · obtain ⟨statements, hparses⟩ := hparses
      rw [Machine.run_of_parsesTo hparses] at hrun
      cases ho : executeAll (call fuel) fuel statements (m.ready source) with
      | ok flow left =>
        rw [ho] at hrun
        cases hrun
        cases hblames
      | failed e' left =>
        rw [ho] at hrun
        cases hrun
        have herror := congrArg Outcome.error? ho
        exact ⟨e', .executed (.run hparses) (m.ready_alike source) herror,
          (List.mem_singleton.1 hblames).symm⟩
      | outOfFuel =>
        rw [ho] at hrun
        cases hrun
    · obtain ⟨_, -, hrun'⟩ := Machine.run_of_errors hparses m fuel
      rw [hrun] at hrun'
      cases hrun'
      -- The errors of a unit that is not executed are of other kinds.
      obtain hlexical | hsyntactic := List.mem_append.1 hblames
      · obtain ⟨_, -, he⟩ := List.mem_map.1 hlexical
        cases congrArg Diagnostic.kind he
      · obtain ⟨_, -, he⟩ := List.mem_map.1 hsyntactic
        cases congrArg Diagnostic.kind he
  | force source =>
    rw [perform_force] at h
    obtain ⟨_, -, rfl⟩ | ⟨e', ho, rfl⟩ := Outcome.cases_of_answered h
    · cases hblames
    · cases hblames
      have herror := (Machine.interpret_error? ..).symm.trans (congrArg Outcome.error? ho)
      exact ⟨e, .executed .force ((m.parsed_alike source).note _) herror, rfl⟩
  | interpret statements =>
    rw [perform_interpret] at h
    obtain ⟨_, -, rfl⟩ | ⟨e', ho, rfl⟩ := Outcome.cases_of_answered h
    · cases hblames
    · cases hblames
      have herror := (Machine.interpret_error? ..).symm.trans (congrArg Outcome.error? ho)
      exact ⟨e, .executed .interpret ((Machine.Alike.refl m).note _) herror, rfl⟩
  | define name value =>
    rw [perform_define] at h
    obtain ⟨_, -, rfl⟩ | ⟨e', ho, rfl⟩ := Outcome.cases_of_answered h
    · cases hblames
    · cases hblames
      exact ⟨e, .defined (Run.define_error? (congrArg Outcome.error? ho)), rfl⟩
  | assign name value =>
    simp only [Step.perform, Store.assign] at h
    cases hbinder : m.store.binder Machine.globals name with
    | ok binder =>
      rw [hbinder] at h
      cases h
      cases hblames
    | error e' =>
      rw [hbinder] at h
      cases h
      cases hblames
      exact ⟨e, .assigned hbinder, rfl⟩
  | call name args =>
    cases hc : (m.store.lookup? Machine.globals name).bind Value.callable? with
    | none =>
      rw [perform_call_none hc] at h
      cases h
      cases hblames
    | some c =>
      rw [perform_call hc] at h
      obtain ⟨_, -, rfl⟩ | ⟨e', ho, rfl⟩ := Outcome.cases_of_answered h
      · cases hblames
      · cases hblames
        exact ⟨e, .called (lookup?_of_callable? hc) (congrArg Outcome.error? ho), rfl⟩
  | reset | clear | lookup | provide | equal =>
    cases h
    cases hblames

/-! ## Reachable machines -/

/-- Some session of steps that are allowed comes to the machine. Every step may have its own
fuel. -/
inductive Reachable (allowed : Step → Prop) : Machine → Prop where
  | initial (clock : Clock) : Reachable allowed (.initial clock)
  | fresh {m} : Reachable allowed m → Reachable allowed (fresh m)
  | step {fuel m step answer after} : Reachable allowed m → allowed step →
      step.perform fuel m = some (answer, after) → Reachable allowed after

/-- What a new machine has, what starting afresh keeps and what every effect keeps, every reachable
machine has. -/
theorem Reachable.invariant {allowed : Step → Prop} {I : Machine → Prop}
    (hinitial : ∀ clock, I (.initial clock)) (hfresh : ∀ m, I m → I (Session.fresh m))
    (heffect : ∀ fuel m step after, allowed step → I m → step.Effect fuel m after → I after)
    {m : Machine} (h : Reachable allowed m) : I m := by
  induction h with
  | initial clock => exact hinitial clock
  | fresh _ ih => exact hfresh _ ih
  | step _ hallowed hperform ih => exact heffect _ _ _ _ hallowed ih (effect_of_perform hperform)

/-! ## Policies -/

section
variable {P : Policy} {m : Machine}

theorem provideNatives_obeys (h : m.store.Obeys P) : m.provideNatives.store.Obeys P := by
  have hprovide : ∀ {st : Store}, st.Obeys P → ∀ f : Native,
      (st.provide Machine.globals f.name (.callable (.native f))).Obeys P :=
    fun hst f => hst.modify fun s hs => hs.set trivial
  exact hprovide (hprovide (hprovide h _) _) _

/-- Host values are no functions, and so only the statements that are executed matter. -/
theorem Step.Effect.obeys {fuel : Nat} {step : Step} {after : Machine}
    (h : step.Effect fuel m after) (hm : m.store.Obeys P)
    (hexecutes : ∀ statements, step.Executes statements → Stmt.ObeysAll P statements) :
    after.store.Obeys P := by
  cases h with
  | none halike => rwa [halike.store]
  | executed hstatements hbefore hleaves =>
    obtain ⟨left, hleft, halike, -⟩ := hleaves
    rw [halike.store]
    exact (executeAll_keeps (fun c args => call_keeps fuel) _ (hexecutes _ hstatements) _
      (by rwa [hbefore.store])).2 left hleft
  | reset => exact provideNatives_obeys (hm.modify fun s _ => Scope.clear_obeys)
  | cleared => exact hm.modify fun s _ => Scope.clear_obeys
  | @defined _ value => exact hm.modify fun s hs => hs.insert (value.value_obeys P)
  | @assigned _ value => exact hm.modify fun s hs => hs.replace (value.value_obeys P)
  | @provided _ value => exact hm.modify fun s hs => hs.set (value.value_obeys P)
  | called hlookup hafter =>
    have hc : Callable.Obeys P _ := hm.lookup? hlookup
    exact (call_keeps fuel hc (HostValue.values_obey _) m hm).2 after hafter

/-- A new machine has nothing in it that a policy could object to. -/
theorem initial_obeys (clock : Clock) : (Machine.initial clock).store.Obeys P := by
  refine provideNatives_obeys (Store.Obeys.openScope ?_ none)
  intro i s hs
  cases hs

/-- In a session whose steps execute what obeys a policy, everything obeys it. -/
theorem Reachable.obeys {allowed : Step → Prop} (h : Reachable allowed m)
    (hexecutes : ∀ step statements, allowed step → step.Executes statements →
      Stmt.ObeysAll P statements) : m.store.Obeys P :=
  h.invariant initial_obeys (fun _ hm => hm) fun _ _ step _ hallowed hm heffect =>
    heffect.obeys hm fun statements => hexecutes step statements hallowed

end

end Session

end Treewalk
