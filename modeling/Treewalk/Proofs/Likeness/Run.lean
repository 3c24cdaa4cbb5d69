import Treewalk.Proofs.Likeness.Store
import Treewalk.Proofs.Machine.Built

/-!
# Runs that are alike

From machines that are alike, the same is done alike: both runs have a result, or both fail, or both
run out of fuel, and the machines they leave are alike again, under a pairing that has grown by the
scopes that were opened on the way. `Run.Like` says so of two runs, for every larger pairing from
the start, so that likeness can be used after other runs have opened scopes.

Neither the log nor the numbers of scopes matter to a run, nor scopes that are in no pair.
-/

namespace Treewalk

/-- The clocks give the same readings from now on. -/
def Clock.Alike (c c' : Clock) : Prop :=
  ∀ n, c.readings (c.taken + n) = c'.readings (c'.taken + n)

/-- A reading is the same on both clocks, and so are all that follow. -/
theorem Clock.Alike.read {c c' : Clock} (h : c.Alike c') :
    c.read.1 = c'.read.1 ∧ c.read.2.Alike c'.read.2 := by
  refine ⟨h 0, fun n => ?_⟩
  have hnext := h (n + 1)
  simp only [← Nat.add_assoc, Nat.add_right_comm _ n 1] at hnext
  exact hnext

/-- The machines hold the same under a pairing of their scopes, their logs apart. -/
structure Machine.Like (L : Likeness) (ρ : Pairing) (m m' : Machine) : Prop where
  store : m.store.Like L ρ m'.store
  scope : ρ.Pairs m.scope m'.scope
  clock : m.clock.Alike m'.clock
  written : m.written = m'.written

/-- Results are related by `R`, errors are alike, and the machines left are alike under a larger
pairing. -/
inductive Outcome.Like (L : Likeness) (ρ : Pairing) {α β : Type} (R : Pairing → α → β → Prop) :
    Outcome α → Outcome β → Prop where
  | ok {σ a b m m'} : ρ ≤ σ → R σ a b → m.Like L σ m' → Like L ρ R (.ok a m) (.ok b m')
  | failed {σ e e' m m'} : ρ ≤ σ → e.Like L e' → m.Like L σ m' →
      Like L ρ R (.failed e m) (.failed e' m')
  | outOfFuel : Like L ρ R .outOfFuel .outOfFuel

/-- Under every larger pairing, runs from machines that are alike end alike. -/
def Run.Like (L : Likeness) (ρ : Pairing) {α β : Type} (R : Pairing → α → β → Prop) (r : Run α)
    (r' : Run β) : Prop :=
  ∀ σ, ρ ≤ σ → ∀ m m', m.Like L σ m' → (r m).Like L σ R (r' m')

variable {L : Likeness} {ρ σ : Pairing}

namespace Outcome.Like

variable {α β γ δ : Type} {R : Pairing → α → β → Prop} {S : Pairing → γ → δ → Prop} {o : Outcome α}
  {o' : Outcome β}

/-- The three ways in which outcomes can be alike. -/
theorem cases_of (h : o.Like L ρ R o') :
    (∃ σ a b m m', ρ ≤ σ ∧ R σ a b ∧ Machine.Like L σ m m' ∧ o = .ok a m ∧ o' = .ok b m') ∨
    (∃ σ e e' m m', ρ ≤ σ ∧ RuntimeError.Like L e e' ∧ Machine.Like L σ m m' ∧ o = .failed e m ∧
      o' = .failed e' m') ∨
    o = .outOfFuel ∧ o' = .outOfFuel := by
  cases h with
  | ok hle hab hm => exact .inl ⟨_, _, _, _, _, hle, hab, hm, rfl, rfl⟩
  | failed hle he hm => exact .inr (.inl ⟨_, _, _, _, _, hle, he, hm, rfl, rfl⟩)
  | outOfFuel => exact .inr (.inr ⟨rfl, rfl⟩)

/-- What is alike under a pairing above a larger one is so above a smaller one. -/
theorem mono (h : o.Like L σ R o') (hle : ρ ≤ σ) : o.Like L ρ R o' := by
  cases h with
  | ok hle' hab hm => exact .ok (le_trans hle hle') hab hm
  | failed hle' he hm => exact .failed (le_trans hle hle') he hm
  | outOfFuel => exact .outOfFuel

/-- A run goes on from machines that are alike under the pairing that the first run has left. -/
theorem bind {f : α → Run γ} {f' : β → Run δ} (h : o.Like L ρ R o')
    (hf : ∀ σ a b, ρ ≤ σ → R σ a b → (f a).Like L σ S (f' b)) :
    (o.bind f).Like L ρ S (o'.bind f') := by
  cases h with
  | ok hle hab hm => exact (hf _ _ _ hle hab _ (le_refl _) _ _ hm).mono hle
  | failed hle he hm => exact .failed hle he hm
  | outOfFuel => exact .outOfFuel

/-- Going back to scopes that correspond keeps machines alike. -/
theorem inScope {i i' : ScopeId} (h : o.Like L ρ R o') (hpair : ρ.Pairs i i') :
    (o.mapMachine fun m => { m with scope := i }).Like L ρ R
      (o'.mapMachine fun m => { m with scope := i' }) := by
  cases h with
  | ok hle hab hm =>
    exact .ok hle hab ⟨hm.store, hle i i' hpair, hm.clock, hm.written⟩
  | failed hle he hm =>
    exact .failed hle he ⟨hm.store, hle i i' hpair, hm.clock, hm.written⟩
  | outOfFuel => exact .outOfFuel

end Outcome.Like

namespace Run

/-! ## Basic runs -/

variable {α β γ δ : Type} {R : Pairing → α → β → Prop} {S : Pairing → γ → δ → Prop}
  {t u : Token} {v v' : Value} {i i' : ScopeId}

theorem Like.mono {r : Run α} {r' : Run β} (h : r.Like L ρ R r') (hle : ρ ≤ σ) : r.Like L σ R r' :=
  fun τ hle' => h τ (le_trans hle hle')

/-- The results have to be related under every larger pairing, because runs before may have opened
scopes. -/
theorem Like.pure {a : α} {b : β} (h : ∀ σ, ρ ≤ σ → R σ a b) :
    (Pure.pure a : Run α).Like L ρ R (Pure.pure b : Run β) :=
  fun σ hle _ _ hm => .ok (le_refl σ) (h σ hle) hm

theorem Like.exhausted : (exhausted : Run α).Like L ρ R (exhausted : Run β) :=
  fun _ _ _ _ _ => .outOfFuel

theorem Like.bind {r : Run α} {r' : Run β} {f : α → Run γ} {f' : β → Run δ} (hr : r.Like L ρ R r')
    (hf : ∀ σ a b, ρ ≤ σ → R σ a b → (f a).Like L σ S (f' b)) :
    (r >>= f).Like L ρ S (r' >>= f') :=
  fun σ hle m m' hm => (hr σ hle m m' hm).bind fun τ a b hle' => hf τ a b (le_trans hle hle')

/-- An operation that does not touch the machine. -/
theorem Like.ofExcept {x : Except RuntimeError α} {x' : Except RuntimeError β}
    (h : ∀ σ, ρ ≤ σ → ResultRel (RuntimeError.Like L) (R σ) x x') :
    (ofExcept x).Like L ρ R (ofExcept x') := by
  intro σ hle m m' hm
  cases h σ hle with
  | ok hab => exact .ok (le_refl σ) hab hm
  | error he => exact .failed (le_refl σ) he hm

theorem Like.note (e e' : LogEntry) : (note e).Like L ρ (fun _ _ _ => True) (note e') :=
  fun σ _ _ _ hm => .ok (le_refl σ) trivial ⟨hm.store, hm.scope, hm.clock, hm.written⟩

theorem Like.write (w : Write) : (write w).Like L ρ (fun _ _ _ => True) (write w) :=
  fun σ _ _ _ hm =>
    .ok (le_refl σ) trivial ⟨hm.store, hm.scope, hm.clock, congrArg (·.push w) hm.written⟩

theorem Like.readClock : readClock.Like L ρ (fun _ x y => x = y) readClock :=
  fun σ _ _ _ hm =>
    .ok (le_refl σ) hm.clock.read.1 ⟨hm.store, hm.scope, hm.clock.read.2, hm.written⟩

theorem Like.currentScope : currentScope.Like L ρ (fun σ => σ.Pairs) currentScope :=
  fun σ _ _ _ hm => .ok (le_refl σ) hm.scope hm

/-- The scopes that are opened make a new pair. -/
theorem Like.openScope (h : ρ.Pairs i i') :
    (openScope i).Like L ρ (fun σ => σ.Pairs) (openScope i') := by
  intro σ hle m m' hm
  have hgrown := Pairing.le_add hm.store.unpaired
  exact .ok hgrown (.inr ⟨rfl, rfl⟩)
    ⟨hm.store.openScope (hle i i' h), hgrown _ _ hm.scope, hm.clock, hm.written⟩

/-- Scopes that correspond are entered, and left for those that corresponded before. -/
theorem Like.within {r : Run α} {r' : Run β} (h : ρ.Pairs i i') (hr : r.Like L ρ R r') :
    (within i r).Like L ρ R (within i' r') := by
  intro σ hle m m' hm
  rw [within_apply, within_apply]
  have hinside : Machine.Like L σ { m with scope := i } { m' with scope := i' } :=
    ⟨hm.store, hle i i' h, hm.clock, hm.written⟩
  exact (hr σ hle _ _ hinside).inScope hm.scope

/-- A name is found in both machines or in none, with values that are alike. -/
theorem Like.get (ht : L.Like t u) : (get t).Like L ρ (Value.Like L) (get u) := by
  intro σ hle m m' hm
  unfold Run.get
  obtain ⟨v, v', hv, hv', hlike⟩ | ⟨e, e', he, he', hlike⟩ :=
    resultRel_cases (hm.store.get hm.scope ht)
  · rw [hv, hv']
    exact .ok (le_refl σ) hlike hm
  · rw [he, he']
    exact .failed (le_refl σ) hlike hm

/-- A name is free in both scopes or in none. -/
theorem Like.define (h : ρ.Pairs i i') (ht : L.Like t u) (hv : v.Like L ρ v') :
    (define i t v).Like L ρ (fun _ _ _ => True) (define i' u v') := by
  intro σ hle m m' hm
  have hpair := hle i i' h
  unfold Run.define
  obtain ⟨_, _, hfree, hfree', -⟩ | ⟨e, e', he, he', hlike⟩ :=
    resultRel_cases (hm.store.checkFree hpair ht)
  · rw [hfree, hfree', L.lexeme ht]
    exact .ok (le_refl σ) trivial ⟨hm.store.insert hpair _ (hv.mono hle), hm.scope, hm.clock,
      hm.written⟩
  · rw [he, he']
    exact .failed (le_refl σ) hlike hm

/-- The scopes that bind a name correspond, and it is replaced in both. -/
theorem Like.assign (ht : L.Like t u) (hv : v.Like L ρ v') :
    (assign t v).Like L ρ (fun _ _ _ => True) (assign u v') := by
  intro σ hle m m' hm
  unfold Run.assign
  obtain ⟨j, j', hj, hj', hpair⟩ | ⟨e, e', he, he', hlike⟩ :=
    resultRel_cases (hm.store.binder hm.scope ht)
  · rw [hj, hj', L.lexeme ht]
    exact .ok (le_refl σ) trivial ⟨hm.store.replace hpair _ (hv.mono hle), hm.scope, hm.clock,
      hm.written⟩
  · rw [he, he']
    exact .failed (le_refl σ) hlike hm

end Run

end Treewalk
