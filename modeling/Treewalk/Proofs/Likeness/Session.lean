import Treewalk.Proofs.Likeness.Evaluation
import Treewalk.Proofs.Likeness.Parsing
import Treewalk.Proofs.Session.Reachable

/-!
# Sessions that are alike

Steps that are alike, taken by machines that are alike, give answers that are alike and leave
machines that are alike, so that sessions go on in step for as long as they last
(`Session.perform_like`). That reset leaves nothing behind and that layout has no meaning are two
cases of this.
-/

namespace Treewalk

variable {L : Likeness} {ρ σ : Pairing} {m m' n n' : Machine} {fuel : Nat}

/-! ## Units -/

/-- The texts have the same errors in their spelling, and tokens that are alike. -/
structure SourceLike (L : Likeness) (a b : String) : Prop where
  errors : (scan a).errors = (scan b).errors
  tokens : List.Forall₂ L.Like (scan a).tokens (scan b).tokens

theorem SourceLike.refl (a : String) : SourceLike L a a :=
  ⟨rfl, Likeness.refl_all _⟩

/-- If one text is a unit without errors, then so is the other one. -/
theorem SourceLike.parsesTo_iff {a b : String} (h : SourceLike L a b) :
    (∃ ss, ParsesTo a ss) ↔ ∃ ss, ParsesTo b ss := by
  obtain ⟨-, herrors⟩ := parse_like h.tokens
  constructor
  · rintro ⟨ss, hss⟩
    rw [hss.parse_errors, List.forall₂_nil_left_iff] at herrors
    exact ⟨_, h.errors ▸ hss.scan_errors, herrors, rfl⟩
  · rintro ⟨ss, hss⟩
    rw [hss.parse_errors, List.forall₂_nil_right_iff] at herrors
    exact ⟨_, h.errors ▸ hss.scan_errors, herrors, rfl⟩

/-- Logs do not matter to likeness. -/
theorem Machine.Like.of_alike (h : m.Like L ρ m') (hn : n.Alike m) (hn' : n'.Alike m') :
    n.Like L ρ n' where
  store := by rw [hn.store, hn'.store]; exact h.store
  scope := by rw [hn.scope, hn'.scope]; exact h.scope
  clock := by rw [hn.clock, hn'.clock]; exact h.clock
  written := by rw [hn.written, hn'.written]; exact h.written

/-- The native functions are the same, so that providing them keeps stores alike. -/
theorem provideNatives_like (h : m.store.Like L ρ m'.store)
    (hglobals : ρ.Pairs Machine.globals Machine.globals) :
    m.provideNatives.store.Like L ρ m'.provideNatives.store := by
  have hprovide : ∀ {st st' : Store}, st.Like L ρ st' → ∀ f : Native,
      (st.provide Machine.globals f.name (.callable (.native f))).Like L ρ
        (st'.provide Machine.globals f.name (.callable (.native f))) :=
    fun hst f => hst.provide hglobals f.name (.callable (.native f))
  exact hprovide (hprovide (hprovide h _) _) _

/-! ## New machines -/

@[simp] theorem Machine.reset_clock (m : Machine) : m.reset.clock = m.clock := by
  simp only [reset, provideNatives, note]

@[simp] theorem Machine.reset_written (m : Machine) : m.reset.written = m.written := by
  simp only [reset, provideNatives, note]

/-- The global scopes correspond, and no others. -/
def Pairing.roots : Pairing where
  Pairs i i' := i = Machine.globals ∧ i' = Machine.globals
  oneToOne := by
    rintro i i' j j' ⟨rfl, rfl⟩ ⟨rfl, rfl⟩
    exact iff_of_true rfl rfl

/-- If the global scopes are empty, then it does not matter what else there is. -/
theorem Store.like_of_empty {st st' : Store} (h : st.scope? Machine.globals = some ⟨[], none⟩)
    (h' : st'.scope? Machine.globals = some ⟨[], none⟩) : st.Like L .roots st' := by
  rintro i i' ⟨rfl, rfl⟩
  exact ⟨_, _, h, h', .nil, .none⟩

/-- New machines are alike if their clocks are, with nothing but their global scopes in
correspondence. -/
theorem initial_like {clock clock' : Clock} (h : clock.Alike clock') :
    (Machine.initial clock).Like L .roots (.initial clock') where
  store := provideNatives_like (Store.like_of_empty rfl rfl) ⟨rfl, rfl⟩
  scope := ⟨rfl, rfl⟩
  clock := h
  written := rfl

/-! ## Execution -/

theorem executeAll_call_like (fuel : Nat) {ss ss' : List Stmt}
    (hss : List.Forall₂ (Stmt.Like L) ss ss')
    (h : m.Like L ρ m') : (executeAll (call fuel) fuel ss m).Like L ρ (Flow.Like L)
      (executeAll (call fuel) fuel ss' m') :=
  executeAll_like (call_like fuel) ss hss ρ (le_refl ρ) m m' h

/-- Executing statements that are alike leaves machines that are alike, also after an error, when
both go back to the global scope. -/
theorem interpret_like (fuel : Nat) {ss ss' : List Stmt} (hss : List.Forall₂ (Stmt.Like L) ss ss')
    (h : m.Like L ρ m') (hglobals : ρ.Pairs Machine.globals Machine.globals) :
    (m.interpret fuel ss).Like L ρ (fun _ _ _ => True) (m'.interpret fuel ss') := by
  -- The logs may differ, so that noting anything keeps machines alike.
  have hnoted := h.of_alike ((Machine.Alike.refl m).note (.interpreting ss.length))
    ((Machine.Alike.refl m').note (.interpreting ss'.length))
  unfold Machine.interpret
  obtain ⟨σ, flow, flow', left, left', hle, -, hleft, ho, ho'⟩ |
    ⟨σ, e, e', left, left', hle, he, hleft, ho, ho'⟩ | ⟨ho, ho'⟩ :=
    (executeAll_call_like fuel hss hnoted).cases_of
  · rw [ho, ho']
    exact .ok hle trivial hleft
  · rw [ho, ho']
    exact .failed hle he ⟨hleft.store, hle _ _ hglobals, hleft.clock, hleft.written⟩
  · rw [ho, ho']
    exact .outOfFuel

namespace Session

/-! ## Answers -/

inductive Answer.Like (L : Likeness) (ρ : Pairing) : Answer → Answer → Prop where
  | done : Like L ρ .done .done
  | report {r r' : Report} : List.Forall₂ (Diagnostic.Like L) r.diagnostics r'.diagnostics →
      Like L ρ (.report r) (.report r')
  | forced {e e'} (errors : Nat) : Option.Rel (RuntimeError.Like L) e e' →
      Like L ρ (.forced errors e) (.forced errors e')
  | failed {e e'} : e.Like L e' → Like L ρ (.failed e) (.failed e')
  | value {v v'} : Option.Rel (Value.Like L ρ) v v' → Like L ρ (.value v) (.value v')
  | equal (same : Bool) : Like L ρ (.equal same) (.equal same)

/-- Both steps have answers that are alike and leave machines that are alike, under a larger
pairing. -/
def MomentLike (L : Likeness) (ρ : Pairing) (x y : Answer × Machine) : Prop :=
  ∃ σ, ρ ≤ σ ∧ x.1.Like L σ y.1 ∧ x.2.Like L σ y.2

theorem MomentLike.mono {x y : Answer × Machine} (h : MomentLike L σ x y) (hle : ρ ≤ σ) :
    MomentLike L ρ x y := by
  obtain ⟨τ, hle', hanswer, hmachine⟩ := h
  exact ⟨τ, le_trans hle hle', hanswer, hmachine⟩

/-- Outcomes that are alike are answered alike, and out of fuel there is no answer on either side.
-/
theorem answered_like {α β : Type} {R : Pairing → α → β → Prop} {o : Outcome α} {o' : Outcome β}
    {ok : α → Answer} {ok' : β → Answer} {failed failed' : RuntimeError → Answer}
    (h : o.Like L ρ R o') (hok : ∀ σ a b, R σ a b → (ok a).Like L σ (ok' b))
    (hfailed : ∀ σ e e', e.Like L e' → (failed e).Like L σ (failed' e')) :
    Option.Rel (MomentLike L ρ) (o.answered ok failed) (o'.answered ok' failed') := by
  cases h with
  | ok hle hab hleft => exact .some ⟨_, hle, hok _ _ _ hab, hleft⟩
  | failed hle he hleft => exact .some ⟨_, hle, hfailed _ _ _ he, hleft⟩
  | outOfFuel => exact .none

/-! ## Steps -/

inductive Step.Like (L : Likeness) : Step → Step → Prop where
  | run {a b} : SourceLike L a b → Like L (.run a) (.run b)
  | force {a b} : SourceLike L a b → Like L (.force a) (.force b)
  | interpret {ss ss'} : List.Forall₂ (Stmt.Like L) ss ss' → Like L (.interpret ss) (.interpret ss')
  | reset : Like L .reset .reset
  | clear : Like L .clear .clear
  | lookup (name : String) : Like L (.lookup name) (.lookup name)
  | define {t u} (value : HostValue) : L.Like t u → Like L (.define t value) (.define u value)
  | assign {t u} (value : HostValue) : L.Like t u → Like L (.assign t value) (.assign u value)
  | provide (name : String) (value : HostValue) : Like L (.provide name value) (.provide name value)
  | call (name : String) (args : List HostValue) : Like L (.call name args) (.call name args)
  | equal (name other : String) : Like L (.equal name other) (.equal name other)

/-- Every step is like itself. -/
theorem Step.Like.refl (step : Step) : step.Like L step := by
  cases step with
  | run source => exact .run (.refl source)
  | force source => exact .force (.refl source)
  | interpret statements => exact .interpret (Stmt.likeAll_refl statements)
  | reset => exact .reset
  | clear => exact .clear
  | lookup name => exact .lookup name
  | define name value => exact .define value (L.refl name)
  | assign name value => exact .assign value (L.refl name)
  | provide name value => exact .provide name value
  | call name args => exact .call name args
  | equal name other => exact .equal name other

section
variable (h : m.Like L ρ m') (hglobals : ρ.Pairs Machine.globals Machine.globals)
include h hglobals

/-- Texts that are alike are both executed, with outcomes that are alike, or both refused, with
diagnostics that are alike. -/
theorem run_like {a b : String} (hsource : SourceLike L a b) :
    Option.Rel (MomentLike L ρ) ((Step.run a).perform fuel m) ((Step.run b).perform fuel m') := by
  obtain ⟨hstatements, herrors⟩ := parse_like hsource.tokens
  simp only [Step.perform]
  -- Whether a text is executed depends on its errors only, and there are errors on both sides or on
  -- none.
  by_cases hparses : ∃ ss, ParsesTo a ss
  · obtain ⟨ss, hss⟩ := hparses
    obtain ⟨ss', hss'⟩ := hsource.parsesTo_iff.1 ⟨ss, hss⟩
    rw [hss.statements_eq, hss'.statements_eq] at hstatements
    rw [Machine.run_of_parsesTo hss, Machine.run_of_parsesTo hss']
    have hready := h.of_alike (m.ready_alike a) (m'.ready_alike b)
    obtain ⟨σ, flow, flow', left, left', hle, -, hleft, ho, ho'⟩ |
      ⟨σ, e, e', left, left', hle, he, hleft, ho, ho'⟩ | ⟨ho, ho'⟩ :=
      (executeAll_call_like fuel hstatements hready).cases_of
    · rw [ho, ho']
      exact .some ⟨σ, hle, .report .nil, hleft⟩
    · rw [ho, ho']
      exact .some ⟨σ, hle, .report (.cons (.runtime he) .nil), hleft.store, hle _ _ hglobals,
        hleft.clock, hleft.written⟩
    · rw [ho, ho']
      exact .none
  · obtain ⟨after, hafter, hrun⟩ := Machine.run_of_errors hparses m fuel
    obtain ⟨after', hafter', hrun'⟩ :=
      Machine.run_of_errors (fun hb => hparses (hsource.parsesTo_iff.2 hb)) m' fuel
    rw [hrun, hrun', hsource.errors]
    -- Errors in the spelling are the very same ones.
    have hlexical : List.Forall₂ (Diagnostic.Like L)
        ((scan b).errors.map LexicalError.diagnostic)
        ((scan b).errors.map LexicalError.diagnostic) := by
      rw [List.forall₂_map_left_iff, List.forall₂_map_right_iff]
      exact List.forall₂_same.2 fun e _ => .lexical e
    have hsyntactic := List.rel_map (fun _ _ he => Diagnostic.Like.syntactic he) herrors
    exact .some ⟨ρ, le_refl ρ, .report (List.rel_append hlexical hsyntactic),
      h.of_alike hafter hafter'⟩

/-- A text that is forced is executed on both sides, with as many errors. -/
theorem force_like {a b : String} (hsource : SourceLike L a b) :
    Option.Rel (MomentLike L ρ) ((Step.force a).perform fuel m)
      ((Step.force b).perform fuel m') := by
  obtain ⟨hstatements, herrors⟩ := parse_like hsource.tokens
  have hparsed := h.of_alike (m.parsed_alike a) (m'.parsed_alike b)
  have hlike := interpret_like fuel hstatements hparsed hglobals
  rw [perform_force, perform_force, hsource.errors, herrors.length_eq]
  exact answered_like hlike (fun _ _ _ _ => .forced _ .none) fun _ _ _ he => .forced _ (.some he)

/-- Reset keeps machines alike: both clear their global scope and provide the same functions again.
-/
theorem reset_like : m.reset.Like L ρ m'.reset where
  store := by
    have hcleared := h.store.clear hglobals
    exact provideNatives_like (m := { m with store := m.store.clear Machine.globals }) hcleared
      hglobals
  scope := hglobals
  clock := by simpa using h.clock
  written := by simpa using h.written

/-- One step taken by machines that are alike. -/
theorem Step.Like.perform {step step' : Step} (hstep : step.Like L step') :
    Option.Rel (MomentLike L ρ) (step.perform fuel m) (step'.perform fuel m') := by
  cases hstep with
  | run hsource => exact run_like h hglobals hsource
  | force hsource => exact force_like h hglobals hsource
  | interpret hss =>
    rw [perform_interpret, perform_interpret]
    exact answered_like (interpret_like fuel hss h hglobals) (fun _ _ _ _ => .done)
      fun _ _ _ he => .failed he
  | reset => exact .some ⟨ρ, le_refl ρ, .done, reset_like h hglobals⟩
  | clear =>
    exact .some ⟨ρ, le_refl ρ, .done, h.store.clear hglobals, h.scope, h.clock, h.written⟩
  | lookup name => exact .some ⟨ρ, le_refl ρ, .value (h.store.lookup? hglobals name), h⟩
  | define value ht =>
    have hlike := Run.Like.define hglobals ht value.value_like ρ (le_refl ρ) m m' h
    rw [perform_define, perform_define]
    exact answered_like hlike (fun _ _ _ _ => .done) fun _ _ _ he => .failed he
  | assign value ht =>
    simp only [Step.perform, Store.assign]
    obtain ⟨j, j', hj, hj', hpair⟩ | ⟨e, e', he, he', hlike⟩ :=
      resultRel_cases (h.store.binder hglobals ht)
    · rw [hj, hj', L.lexeme ht]
      exact .some ⟨ρ, le_refl ρ, .done, h.store.replace hpair _ value.value_like, h.scope, h.clock,
        h.written⟩
    · rw [he, he']
      exact .some ⟨ρ, le_refl ρ, .failed hlike, h⟩
  | provide name value =>
    exact .some ⟨ρ, le_refl ρ, .done, h.store.provide hglobals name value.value_like, h.scope,
      h.clock, h.written⟩
  | call name args =>
    -- The name has a callable value on both sides or on none.
    have hcallable : Option.Rel (Callable.Like L ρ)
        ((m.store.lookup? Machine.globals name).bind Value.callable?)
        ((m'.store.lookup? Machine.globals name).bind Value.callable?) := by
      obtain ⟨hv, hv'⟩ | ⟨v, v', hv, hv', hlike⟩ :=
        optionRel_cases (h.store.lookup? hglobals name)
      · rw [hv, hv']
        exact .none
      · rw [hv, hv']
        exact hlike.callable?
    have hargs : List.Forall₂ (Value.Like L ρ) (args.map HostValue.value)
        (args.map HostValue.value) :=
      List.forall₂_same.2 fun v hv => by
        obtain ⟨w, -, rfl⟩ := List.mem_map.1 hv
        exact w.value_like
    obtain ⟨hc, hc'⟩ | ⟨c, c', hc, hc', hlike⟩ := optionRel_cases hcallable
    · rw [perform_call_none hc, perform_call_none hc']
      exact .some ⟨ρ, le_refl ρ, .value .none, h⟩
    · have hcall := call_like fuel ρ c c' _ _ hlike hargs ρ (le_refl ρ) m m' h
      rw [perform_call hc, perform_call hc']
      exact answered_like hcall (fun _ _ _ hv => .value (.some hv)) fun _ _ _ he => .failed he
  | equal name other =>
    -- Whether two names mean the same is asked of each machine alone, and is the same answer
    -- because the pairing is one to one.
    have hsame : sameMeaning (m.store.lookup? Machine.globals name)
        (m.store.lookup? Machine.globals other) =
        sameMeaning (m'.store.lookup? Machine.globals name)
          (m'.store.lookup? Machine.globals other) := by
      obtain ⟨hv, hv'⟩ | ⟨v, v', hv, hv', hlike⟩ :=
        optionRel_cases (h.store.lookup? hglobals name) <;>
      obtain ⟨hw, hw'⟩ | ⟨w, w', hw, hw', hlike'⟩ :=
        optionRel_cases (h.store.lookup? hglobals other) <;>
      rw [hv, hv', hw, hw']
      · rfl
      · rfl
      · exact hlike.same_eq hlike'
    simp only [Step.perform, hsame]
    exact .some ⟨ρ, le_refl ρ, .equal _, h⟩

end

/-! ## Sessions -/

/-- Forgetting what was written keeps machines alike. -/
theorem fresh_like (h : m.Like L ρ m') : (fresh m).Like L ρ (fresh m') :=
  ⟨h.store, h.scope, h.clock, rfl⟩

/-- Sessions of steps that are alike have answers that are alike, one by one, and both end or both
run out of fuel. -/
theorem perform_like {steps steps' : List Step} (hsteps : List.Forall₂ (Step.Like L) steps steps')
    (h : m.Like L ρ m') (hglobals : ρ.Pairs Machine.globals Machine.globals) :
    Option.Rel (List.Forall₂ (MomentLike L ρ)) (perform fuel m steps) (perform fuel m' steps') := by
  induction hsteps generalizing ρ m m' with
  | nil => exact .some .nil
  | cons hstep _ ih =>
    simp only [perform]
    obtain ⟨hx, hx'⟩ | ⟨⟨answer, after⟩, ⟨answer', after'⟩, hx, hx', σ, hle, hanswer, hafter⟩ :=
      optionRel_cases (hstep.perform (fresh_like h) hglobals)
    · rw [hx, hx']
      exact .none
    · rw [hx, hx']
      simp only [Option.bind_eq_bind, Option.bind_some]
      obtain ⟨hrest, hrest'⟩ | ⟨rest, rest', hrest, hrest', hlike⟩ :=
        optionRel_cases (ih hafter (hle _ _ hglobals))
      · rw [hrest, hrest']
        exact .none
      · rw [hrest, hrest']
        exact .some (.cons ⟨σ, hle, hanswer, hafter⟩ (hlike.imp fun _ _ hxy => hxy.mono hle))

/-- What moments that are alike have in common, sessions of steps that are alike have in common from
moment to moment. -/
theorem perform_map_eq {α : Type} {steps steps' : List Step} {f : Answer × Machine → α}
    (hf : ∀ x y, MomentLike L ρ x y → f x = f y)
    (hsteps : List.Forall₂ (Step.Like L) steps steps') (h : m.Like L ρ m')
    (hglobals : ρ.Pairs Machine.globals Machine.globals) :
    (perform fuel m steps).map (List.map f) = (perform fuel m' steps').map (List.map f) := by
  obtain ⟨hx, hx'⟩ | ⟨xs, ys, hx, hx', hlike⟩ := optionRel_cases (perform_like hsteps h hglobals)
  · rw [hx, hx']
  · rw [hx, hx', Option.map_some, Option.map_some, map_eq_of_forall₂ hlike hf]

end Session

end Treewalk
