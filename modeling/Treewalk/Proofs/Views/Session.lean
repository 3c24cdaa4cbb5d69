import Treewalk.Proofs.Session.Reset
import Treewalk.Proofs.Views.Run

/-!
# Sessions under a view

A machine whose global scope is not hidden can go through a session as it is or as the view shows
it: the answers are the same, and after every step the one machine is what the view shows of the
other (`Session.perform_through`). The host sees no difference (`Session.sights_through`).
-/

namespace Treewalk

variable {V : View} {m m₁ : Machine} {fuel : Nat}

/-! ## Changes that the host makes -/

namespace Store

/-- Whether the name is there already does not depend on the view. -/
theorem through_provide (V : View) (st : Store) (i : ScopeId) (name : String) (v : Value) :
    (st.provide i name v).through V = (st.through V).provide i name v := by
  refine through_modify (f := fun s => s.set name v) (fun s => ?_) st i
  change Scope.through V (if s.binds name then _ else _) = if s.binds name then _ else _
  split <;> rfl

theorem through_clear (V : View) (st : Store) (i : ScopeId) :
    (st.clear i).through V = (st.through V).clear i :=
  through_modify (f := Scope.clear) (fun _ => rfl) st i

@[simp] theorem size_provide (st : Store) (i : ScopeId) (name : String) (v : Value) :
    (st.provide i name v).scopes.size = st.scopes.size :=
  size_modify ..

/-- The host provides values in the global scope only, which is never looked through. -/
theorem Fits.provide {st : Store} (h : st.Fits V) {i : ScopeId} (hi : V.through i = i)
    (name : String) {v : Value} (hv : v.Fits V st.scopes.size) : (st.provide i name v).Fits V :=
  h.modify fun _ hs => hs.set hi hv

theorem Fits.clear {st : Store} (h : st.Fits V) {i : ScopeId} (hi : V.through i = i) :
    (st.clear i).Fits V :=
  h.modify fun _ hs => hs.clear hi

/-- Native functions refer to no scope. -/
theorem Fits.provideNatives {m : Machine} (h : m.store.Fits V)
    (hglobals : V.through Machine.globals = Machine.globals) : m.provideNatives.store.Fits V := by
  have hprovide : ∀ {st : Store}, st.Fits V → ∀ f : Native,
      (st.provide Machine.globals f.name (.callable (.native f))).Fits V :=
    fun hst f => hst.provide hglobals f.name (Value.fits_of_closure?_none rfl)
  exact hprovide (hprovide (hprovide h _) _) _

end Store

namespace Machine

theorem nextScope_provideNatives (m : Machine) : m.provideNatives.nextScope = m.nextScope :=
  (Store.size_provide ..).trans ((Store.size_provide ..).trans (Store.size_provide ..))

/-- A new machine is well formed. -/
theorem initial_fits (clock : Clock) : (initial clock).Fits .plain := by
  have hstart : (Store.empty.openScope none).2.Fits .plain := by
    refine ⟨fun i s _ hs => ?_, fun _ _ => ⟨id, rfl⟩⟩
    rw [Store.scope?_openScope] at hs
    split at hs
    · cases hs
      subst i
      exact ⟨by simp, by simp, fun _ => rfl, fun hne => (hne rfl).elim⟩
    · cases hs
  exact ⟨hstart.provideNatives rfl, by
    rw [initial, nextScope_provideNatives]
    exact ⟨Nat.zero_lt_one, id⟩⟩

/-! ## Machines at rest -/

/-- The machine fits the view, and one does not look through the scope that is current. -/
structure Rests (V : View) (m : Machine) : Prop where
  fits : m.Fits V
  scope : V.through m.scope = m.scope

/-- The scopes have changed, but not their number. -/
theorem Rests.of_store (h : m.Rests V) (hstore : m₁.store.Fits V)
    (hsize : m₁.nextScope = m.nextScope) (hscope : m₁.scope = m.scope) : m₁.Rests V where
  fits := ⟨hstore, by rw [hsize, hscope]; exact h.fits.scope⟩
  scope := by rw [hscope]; exact h.scope

/-- A run ends in the scope in which it started. -/
theorem Rests.becomes (h : m.Rests V) (hbecomes : m.Becomes V m₁) : m₁.Rests V where
  fits := hbecomes.fits
  scope := by rw [hbecomes.scope]; exact h.scope

theorem Rests.note (h : m.Rests V) (e : LogEntry) : (m.note e).Rests V :=
  h.of_store h.fits.store rfl rfl

theorem Rests.foldl_note {α : Type} (h : m.Rests V) (entry : α → LogEntry) (as : List α) :
    (as.foldl (fun m a => m.note (entry a)) m).Rests V := by
  induction as generalizing m with
  | nil => exact h
  | cons a as ih => exact ih (h.note (entry a))

theorem through_note (V : View) (m : Machine) (e : LogEntry) :
    (m.through V).note e = (m.note e).through V := rfl

theorem through_foldl_note {α : Type} (V : View) (entry : α → LogEntry) (as : List α)
    (m : Machine) : as.foldl (fun m a => m.note (entry a)) (m.through V) =
      (as.foldl (fun m a => m.note (entry a)) m).through V := by
  induction as generalizing m with
  | nil => rfl
  | cons a as ih => exact ih (m.note (entry a))

/-! ## The global scope -/

section
variable (hglobals : ¬V.hidden globals)
include hglobals

/-- The global scope lies in no other one, so that there is nothing behind it to look at. -/
theorem Fits.through_globals (h : m.Fits V) : V.through globals = globals :=
  Nat.le_zero.1 (h.store.through_le hglobals)

/-- Any machine has a global scope, if it is in some scope. -/
theorem Fits.inGlobals (h : m.Fits V) : (m.inScope globals).Rests V where
  fits := ⟨h.store, Nat.lt_of_le_of_lt (Nat.zero_le _) h.scope.lt, hglobals⟩
  scope := h.through_globals hglobals

/-- A reset leaves the links between scopes as they are, and empties the global one. -/
theorem Rests.reset (h : m.Rests V) : m.reset.Rests V := by
  have hthrough := h.fits.through_globals hglobals
  refine (h.fits.inGlobals hglobals).of_store
    (Store.Fits.provideNatives (h.fits.store.clear hthrough) hthrough) ?_ rfl
  refine (nextScope_provideNatives _).trans ?_
  exact Store.size_modify ..

/-- The reset can be made before or behind the view. -/
theorem through_reset (h : m.Fits V) : (m.through V).reset = m.reset.through V := by
  simp only [reset, provideNatives, note, through, Native.all, List.foldl_cons, List.foldl_nil,
    Store.through_provide, Store.through_clear, h.through_globals hglobals]

end

end Machine

/-! ## Outcomes -/

/-- The second outcome is the first one as the view shows it, and the machine left fits it. -/
def Outcome.Follows (V : View) {α : Type} (o o' : Outcome α) : Prop :=
  o' = o.mapMachine (Machine.through V) ∧ ∀ after ∈ o.machine?, after.Rests V

/-- A run that respects the view, between two machines at rest. -/
theorem Run.Respects.follows {α : Type} {Q : Nat → α → Prop} {r r' : Run α} {n : Nat}
    (h : r.Respects V m.scope n Q r') (hle : n ≤ m.nextScope) (hm : m.Rests V) :
    (r m).Follows V (r' (m.through V)) := by
  obtain ⟨hrespects, heq⟩ := h m rfl hle hm.fits
  exact ⟨heq, fun _ hafter => hm.becomes (hrespects.becomes hafter)⟩

/-- Statements at the top of a unit. After an error the global scope is current, which the view
shows as it is. -/
theorem Machine.interpret_follows (hm : m.Rests V) (hglobals : ¬V.hidden Machine.globals)
    (fuel : Nat) (statements : List Stmt) :
    (m.interpret fuel statements).Follows V ((m.through V).interpret fuel statements) := by
  -- The machine rests, and so the statements may declare names in its scope.
  have hexecuted : (executeAll (call fuel) fuel statements).Respects V m.scope 0 (Flow.Fits V)
      (executeAll (call fuel) fuel statements) :=
    executeAll_respects (call_respects V fuel) statements (.inl hm.scope)
  obtain ⟨heq, hrests⟩ := Run.Respects.follows (m := m.note (.interpreting statements.length))
    hexecuted (Nat.zero_le _) (hm.note _)
  unfold interpret
  rw [through_note, heq]
  cases ho : executeAll (call fuel) fuel statements (m.note (.interpreting statements.length)) with
  | ok flow left =>
    refine ⟨rfl, fun _ hafter => ?_⟩
    cases hafter
    exact hrests left (by rw [ho]; rfl)
  | failed e left =>
    have hleft := (hrests left (by rw [ho]; rfl)).note (.failed e)
    refine ⟨?_, fun _ hafter => ?_⟩
    · simp only [Outcome.mapMachine, through, hleft.fits.through_globals hglobals, note]
    · cases hafter
      exact hleft.fits.inGlobals hglobals
  | outOfFuel => exact ⟨rfl, fun _ hafter => by cases hafter⟩

/-! ## Steps -/

/-- The answer, and the machine as the view shows it. -/
def Session.through (V : View) (moment : Session.Answer × Machine) : Session.Answer × Machine :=
  (moment.1, moment.2.through V)

/-- The second answer, with the machine that it comes with, is the first one as the view shows
it. -/
def Session.Follows (V : View) (o o' : Option (Session.Answer × Machine)) : Prop :=
  o' = o.map (Session.through V) ∧ ∀ moment ∈ o, moment.2.Rests V

theorem Session.Follows.some {answer : Session.Answer} (h : m.Rests V)
    (heq : m₁ = m.through V) : Session.Follows V (some (answer, m)) (some (answer, m₁)) := by
  refine ⟨by rw [heq]; rfl, fun _ hmoment => ?_⟩
  cases hmoment
  exact h

/-- The answer is made of the result or the error, in which the view changes nothing. -/
theorem Outcome.Follows.answered {α : Type} {o o' : Outcome α} (h : o.Follows V o')
    (ok : α → Session.Answer) (failed : RuntimeError → Session.Answer) :
    Session.Follows V (o.answered ok failed) (o'.answered ok failed) := by
  obtain ⟨rfl, hrests⟩ := h
  cases o with
  | ok a after => exact .some (hrests after rfl) rfl
  | failed e after => exact .some (hrests after rfl) rfl
  | outOfFuel => exact ⟨rfl, fun _ hmoment => by cases hmoment⟩

/-- The machine when a source text has been read and nothing of it has been executed. -/
def Machine.read (source : String) (m : Machine) : Machine :=
  (Treewalk.parse (Treewalk.scan source).tokens).abandoned.foldl
    (fun m u => m.note (.abandoned u))
    ((Treewalk.scan source).tokens.foldl (fun m t => m.note (.token t))
      (m.note (.scanned (Treewalk.scan source).tokens.length
        (Treewalk.scan source).errors.length)))

namespace Session

/-- What is found wrong with a source text before any of it is executed. -/
def diagnostics (source : String) : List Diagnostic :=
  (scan source).errors.map LexicalError.diagnostic ++
    (parse (scan source).tokens).errors.map SyntaxError.diagnostic

/-- A unit without errors is executed. -/
theorem perform_run_of_isEmpty {source : String} (h : (diagnostics source).isEmpty = true) :
    (Step.run source).perform fuel m =
      ((m.read source).interpret fuel (parse (scan source).tokens).statements).answered
        (fun _ => .report ⟨[]⟩) (fun e => .report ⟨[e.diagnostic]⟩) := by
  refine (congrArg (Option.map _) (if_pos h)).trans ?_
  rw [Machine.read]
  cases Machine.interpret fuel (parse (scan source).tokens).statements _ <;> rfl

/-- A unit with errors leaves traces in the log only. -/
theorem perform_run_of_not_isEmpty {source : String} (h : ¬(diagnostics source).isEmpty = true) :
    (Step.run source).perform fuel m =
      some (.report ⟨diagnostics source⟩,
        (m.read source).note (.notRunning (diagnostics source).length)) :=
  congrArg (Option.map _) (if_neg h)

section
variable (hm : m.Rests V) (hglobals : ¬V.hidden Machine.globals)
include hm hglobals

/-- Running a unit reads the same text in both machines, and so finds the same errors or executes
the same statements. -/
theorem run_follows (source : String) :
    Follows V ((Step.run source).perform fuel m)
      ((Step.run source).perform fuel (m.through V)) := by
  have hread : (m.read source).Rests V :=
    ((hm.note _).foldl_note .token (scan source).tokens).foldl_note .abandoned
      (parse (scan source).tokens).abandoned
  have hthrough : (m.through V).read source = (m.read source).through V := by
    simp only [Machine.read, Machine.through_note, Machine.through_foldl_note]
  by_cases hclean : (diagnostics source).isEmpty = true
  · rw [perform_run_of_isEmpty hclean, perform_run_of_isEmpty hclean, hthrough]
    exact (Machine.interpret_follows hread hglobals fuel _).answered _ _
  · rw [perform_run_of_not_isEmpty hclean, perform_run_of_not_isEmpty hclean, hthrough]
    exact .some (hread.note _) rfl

/-- The same holds where the errors of a unit are ignored. -/
theorem force_follows (source : String) :
    Follows V ((Step.force source).perform fuel m)
      ((Step.force source).perform fuel (m.through V)) := by
  have hparsed : (m.parsed source).Rests V :=
    (hm.note (.scanned (scan source).tokens.length (scan source).errors.length)).foldl_note
      .abandoned _
  have hthrough : (m.through V).parsed source = (m.parsed source).through V := by
    simp only [Machine.parsed, Machine.scan, Machine.parse, Machine.through_note,
      Machine.through_foldl_note]
  rw [perform_force, perform_force, hthrough]
  exact (Machine.interpret_follows hparsed hglobals fuel _).answered _ _

/-- Every step can be taken in the machine that the view shows, and the machine that it leaves fits
the view again. -/
theorem step_follows (step : Step) :
    Follows V (step.perform fuel m) (step.perform fuel (m.through V)) := by
  have hthrough := hm.fits.through_globals hglobals
  have hshows : V.Shows m.nextScope Machine.globals := (hm.fits.inGlobals hglobals).fits.scope
  -- Seen from the global scope, through which one does not look, names mean the same.
  have hlookup : ∀ name, (m.store.through V).lookup? Machine.globals name =
      m.store.lookup? Machine.globals name := by
    intro name
    have hname := hm.fits.store.lookup?_through hglobals name
    rwa [hthrough] at hname
  cases step with
  | run source => exact run_follows hm hglobals source
  | force source => exact force_follows hm hglobals source
  | interpret statements =>
    rw [perform_interpret, perform_interpret]
    exact (Machine.interpret_follows hm hglobals fuel statements).answered _ _
  | reset => exact .some (hm.reset hglobals) (Machine.through_reset hglobals hm.fits)
  | clear =>
    refine .some (hm.of_store (hm.fits.store.clear hthrough) (Store.size_modify ..) rfl) ?_
    simp only [Machine.through, Store.through_clear]
  | lookup name =>
    simp only [Step.perform, Machine.through, hlookup]
    exact .some hm rfl
  | define name value =>
    rw [perform_define, perform_define]
    exact (Run.Respects.follows (.define hshows hthrough name value.value_fits)
      (Nat.le_refl _) hm).answered _ _
  | assign name value =>
    have hbinder := hm.fits.store.binder?_through hglobals name.lexeme
    rw [hthrough] at hbinder
    simp only [Step.perform, Store.assign, Store.binder, Machine.through, hbinder]
    cases m.store.binder? Machine.globals name.lexeme with
    | none => exact .some hm rfl
    | some j =>
      refine .some (hm.of_store (hm.fits.store.modify fun s hs => hs.replace value.value_fits)
        (Store.size_modify ..) rfl) ?_
      simp only [Machine.through, Store.through_replace]
  | provide name value =>
    refine .some (hm.of_store (hm.fits.store.provide hthrough name value.value_fits)
      (Store.size_provide ..) rfl) ?_
    simp only [Machine.through, Store.through_provide]
  | call name args =>
    have hcallee : ((m.through V).store.lookup? Machine.globals name).bind Value.callable? =
        (m.store.lookup? Machine.globals name).bind Value.callable? :=
      congrArg (·.bind Value.callable?) (hlookup name)
    cases hc : (m.store.lookup? Machine.globals name).bind Value.callable? with
    | none =>
      rw [perform_call_none hc, perform_call_none (hcallee.trans hc)]
      exact .some hm rfl
    | some c =>
      -- A function that the host finds by its name fits, because the global scope is not hidden.
      have hfits := hm.fits.store.lookup? hglobals (lookup?_of_callable? hc)
      rw [perform_call hc, perform_call (hcallee.trans hc)]
      exact (Run.Respects.follows (call_respects V fuel _ _ c _ hfits (HostValue.values_fit args))
        (Nat.le_refl _) hm).answered _ _
  | equal name other =>
    simp only [Step.perform, Machine.through, hlookup]
    exact .some hm rfl

/-! ## Sessions -/

/-- A session can be gone through with the machine itself or with what the view shows of it. -/
theorem perform_through (steps : List Step) :
    perform fuel (m.through V) steps = (perform fuel m steps).map (List.map (through V)) := by
  induction steps generalizing m with
  | nil => rfl
  | cons step steps ih =>
    -- Every step starts with an empty log and nothing written.
    have hfresh : (fresh m).Rests V := hm.of_store hm.fits.store rfl rfl
    have hfollows : Follows V (step.perform fuel (fresh m))
        (step.perform fuel ((fresh m).through V)) := step_follows hfresh hglobals step
    obtain ⟨heq, hrests⟩ := hfollows
    simp only [perform]
    change (step.perform fuel ((fresh m).through V) >>= _) = _
    rw [heq]
    cases hmoment : step.perform fuel (fresh m) with
    | none => rfl
    | some moment =>
      have hrest := ih (hrests moment hmoment)
      simp only [Option.map_some, Option.bind_eq_bind, Option.bind_some, through]
      rw [hrest]
      cases perform fuel moment.2 steps <;> rfl

/-- The host sees no scopes but the global one, in which the view changes nothing but the link. -/
theorem sights_through (steps : List Step) :
    sights fuel (m.through V) steps = sights fuel m steps := by
  have hsight : ∀ moment, sight (through V moment) = sight moment := by
    intro moment
    simp only [sight, through, Machine.globalCount, Store.size, Machine.through,
      Store.scope?_through]
    cases moment.2.store.scope? Machine.globals <;> rfl
  simp only [sights, perform_through hm hglobals, Option.map_map]
  congr 1
  funext moments
  simp only [Function.comp_apply, List.map_map]
  exact List.map_congr_left fun moment _ => hsight moment

end

end Session

end Treewalk
