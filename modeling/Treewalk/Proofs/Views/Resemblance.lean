import Treewalk.Proofs.Closed
import Treewalk.Proofs.Tasks
import Treewalk.Proofs.Views.Session

/-!
# Machines with additional empty scopes

A machine resembles another one if it holds the same, up to the numbers of scopes that were opened
after a certain point, and up to scopes between others in which nothing is bound. The pairing says
which scopes correspond, and the view looks through the additional ones. Whatever is done next is
done alike in both, and they resemble each other again (`Machine.Resembles.run`), so that the
difference is never seen.
-/

namespace Treewalk

/-- What can be seen of a scope: the names that are bound, what can be seen of the values, and the
scope around it. -/
def Scope.shown (s : Scope) : List (String × Shown) × Option ScopeId :=
  (s.bindings.map fun b => (b.1, b.2.shown), s.enclosing)

/-! ## Machines, values and outcomes -/

/-- The second machine holds what the first one holds, in the same scope. The first `n` scopes are
the same in both. Through the additional scopes of the second one the view looks. -/
structure Machine.Resembles (n : Nat) (V : View) (σ : Pairing) (m m' : Machine) : Prop where
  visible : ∀ i, ¬V.hidden i
  old : ∀ i < n, V.through i = i ∧ σ.Pairs i i
  scope : m.scope < n ∧ m'.scope = m.scope
  fits : m'.Fits V
  like : m.Like .same σ (m'.through V)

/-- The same values up to the numbers of scopes. No function was declared in an additional scope. -/
def Value.Resembles (V : View) (σ : Pairing) (k : Nat) (v v' : Value) : Prop :=
  v.Like .same σ v' ∧ v'.Fits V k

def Flow.Resembles (V : View) (σ : Pairing) (k : Nat) (flow flow' : Flow) : Prop :=
  flow.Like .same σ flow' ∧ flow'.Fits V k

/-- Both runs end in the same way, with results that are related by `R` or with the same error, and
leave machines that resemble each other. -/
inductive Outcome.Resembles (n : Nat) {α : Type} (R : View → Pairing → Nat → α → α → Prop) :
    Outcome α → Outcome α → Prop where
  | ok {V σ m m' a b} : m.Resembles n V σ m' → R V σ m'.nextScope a b →
      Resembles n R (.ok a m) (.ok b m')
  | failed {V σ m m' e} : m.Resembles n V σ m' → Resembles n R (.failed e m) (.failed e m')
  | outOfFuel : Resembles n R .outOfFuel .outOfFuel

theorem Outcome.Resembles.imp {n : Nat} {α : Type} {R S : View → Pairing → Nat → α → α → Prop}
    {o o' : Outcome α} (h : o.Resembles n R o')
    (himp : ∀ V σ k a b, R V σ k a b → S V σ k a b) : o.Resembles n S o' := by
  cases h with
  | ok h hab => exact .ok h (himp _ _ _ _ _ hab)
  | failed h => exact .failed h
  | outOfFuel => exact .outOfFuel

/-- From machines that resemble each other, the runs end in the same way. -/
def Run.Resembles (n : Nat) {α : Type} (R : View → Pairing → Nat → α → α → Prop)
    (r r' : Run α) : Prop :=
  ∀ V σ m m', Machine.Resembles n V σ m m' → (r m).Resembles n R (r' m')

variable {n : Nat} {V : View} {σ τ : Pairing} {m m' : Machine} {α β : Type}

/-! ## Runs that are alike in what a view shows -/

/-- The first run has left what the view shows of the machine that the second one has left. -/
inductive Outcome.Sees (V : View) (σ : Pairing) (m' : Machine) {α : Type}
    (R : Pairing → α → α → Prop) (Q : Nat → α → Prop) : Outcome α → Outcome α → Prop where
  | ok {τ a b after after'} : σ ≤ τ → after.Like .same τ (after'.through V) →
      m'.Becomes V after' → R τ a b → Q after'.nextScope b →
      Sees V σ m' R Q (.ok a after) (.ok b after')
  | failed {τ e after after'} : σ ≤ τ → after.Like .same τ (after'.through V) →
      m'.Becomes V after' → Sees V σ m' R Q (.failed e after) (.failed e after')
  | outOfFuel : Sees V σ m' R Q .outOfFuel .outOfFuel

/-- A run that is like another one, which respects the view. The second is followed through the view
first, and then compared with the first one. -/
theorem Run.sees {R : Pairing → α → α → Prop} {Q : Nat → α → Prop} {r r' : Run α}
    (hm : m.Like .same σ (m'.through V)) (hfits : m'.Fits V) (hlike : r.Like .same σ R r')
    (hrespects : r'.Respects V m'.scope m'.nextScope Q r') :
    (r m).Sees V σ m' R Q (r' m') := by
  have hruns := hlike σ (le_refl σ) m (m'.through V) hm
  obtain ⟨hbecomes, heq⟩ := hrespects m' rfl (Nat.le_refl _) hfits
  rw [heq] at hruns
  generalize r m = o at hruns
  generalize r' m' = o' at hruns hbecomes
  cases o' with
  | ok b after' =>
    obtain ⟨hafter, hb⟩ := hbecomes.of_ok
    cases hruns with
    | ok hle hab hlike => exact .ok hle hlike hafter hab hb
  | failed e after' =>
    cases hruns with
    | failed hle he hlike =>
      obtain rfl := he.eq
      exact .failed hle hlike (hbecomes.becomes rfl)
  | outOfFuel =>
    cases hruns
    exact .outOfFuel

namespace Machine

/-- Without anything looked through, a machine is shown as it is. -/
theorem through_plain (m : Machine) : m.through .plain = m := by
  have hstore : m.store.through .plain = m.store := by
    refine Store.ext_scope? fun i => ?_
    rw [Store.scope?_through]
    cases m.store.scope? i with
    | none => rfl
    | some s =>
      obtain ⟨bindings, enclosing⟩ := s
      cases enclosing <;> rfl
  rw [through, hstore]
  rfl

/-- A well-formed machine resembles itself. -/
theorem WellFormed.resembles (h : m.WellFormed) :
    m.Resembles m.nextScope .plain (.diagonal (· < m.nextScope)) m where
  visible _ := id
  old _ hi := ⟨rfl, rfl, hi⟩
  scope := ⟨h.current, rfl⟩
  fits := wellFormed_iff_fits.1 h
  like := by
    rw [through_plain]
    exact ⟨h.closed.like fun _ _ => rfl, ⟨rfl, h.current⟩, fun _ => rfl, rfl⟩

namespace Resembles

/-- Other machines have come of two that resemble each other, and the view may have changed, but not
on the first `n` scopes. -/
theorem of_like {V' : View} {after after' : Machine} (h : m.Resembles n V σ m') (hle : σ ≤ τ)
    (hvisible : ∀ i, ¬V'.hidden i) (hold : ∀ i < n, V'.through i = i) (hfits : after'.Fits V')
    (hscope : after'.scope = m'.scope) (hlike : after.Like .same τ (after'.through V')) :
    after.Resembles n V' τ after' where
  visible := hvisible
  old i hi := ⟨hold i hi, hle i i (h.old i hi).2⟩
  scope := by
    obtain ⟨hlt, hscope'⟩ := h.scope
    have hafter : after'.scope = m.scope := hscope.trans hscope'
    have hpair : τ.Pairs after.scope (V'.through after'.scope) := hlike.scope
    rw [hafter, hold _ hlt] at hpair
    have heq : after.scope = m.scope := (τ.oneToOne hpair (hle _ _ (h.old _ hlt).2)).2 rfl
    exact ⟨heq ▸ hlt, hafter.trans heq.symm⟩
  fits := hfits
  like := hlike

theorem becomes {after after' : Machine} (h : m.Resembles n V σ m') (hle : σ ≤ τ)
    (hbecomes : m'.Becomes V after') (hlike : after.Like .same τ (after'.through V)) :
    after.Resembles n V τ after' :=
  h.of_like hle h.visible (fun i hi => (h.old i hi).1) hbecomes.fits hbecomes.scope hlike

/-- The first `n` scopes are there. -/
theorem lt_nextScope (h : m.Resembles n V σ m') {i : ScopeId} (hi : i < n) : i < m'.nextScope := by
  obtain ⟨s, s', -, hs', -⟩ := h.like.store i i (h.old i hi).2
  rw [← nextScope_through V]
  exact Store.lt_size_of_scope? hs'

theorem rests (h : m.Resembles n V σ m') : m'.Rests V :=
  ⟨h.fits, by rw [h.scope.2]; exact (h.old _ h.scope.1).1⟩

/-- An old scope may be made current in both. -/
theorem inScope (h : m.Resembles n V σ m') {i : ScopeId} (hi : i < n) :
    (m.inScope i).Resembles n V σ (m'.inScope i) where
  visible := h.visible
  old := h.old
  scope := ⟨hi, rfl⟩
  fits := ⟨h.fits.store, h.lt_nextScope hi, h.visible i⟩
  like := by
    refine ⟨h.like.store, ?_, h.like.clock, h.like.written⟩
    change σ.Pairs i (V.through i)
    rw [(h.old i hi).1]
    exact (h.old i hi).2

theorem mono {k : Nat} (h : m.Resembles n V σ m') (hle : k ≤ n) (hscope : m.scope < k) :
    m.Resembles k V σ m' :=
  ⟨h.visible, fun i hi => h.old i (Nat.lt_of_lt_of_le hi hle), ⟨hscope, h.scope.2⟩, h.fits, h.like⟩

/-- What is done alike and respects views is done in the same way in machines that resemble each
other. -/
theorem run {R : Pairing → α → α → Prop} {Q : View → Nat → α → Prop} {r r' : Run α}
    (h : m.Resembles n V σ m') (hlike : r.Like .same σ R r')
    (hrespects : r'.Respects V m'.scope m'.nextScope (Q V) r') :
    (r m).Resembles n (fun V σ k a b => R σ a b ∧ Q V k b) (r' m') := by
  have hsees := Run.sees h.like h.fits hlike hrespects
  generalize r m = o at hsees
  generalize r' m' = o' at hsees
  cases hsees with
  | ok hle hlike hbecomes hab hb => exact .ok (h.becomes hle hbecomes hlike) ⟨hab, hb⟩
  | failed hle hlike hbecomes => exact .failed (h.becomes hle hbecomes hlike)
  | outOfFuel => exact .outOfFuel

/-- Whatever task comes next, it ends in the same way. -/
theorem run_task (h : m.Resembles n V σ m') (k : Nat) {task task' : Task}
    (htask : task.Like .same σ task') (hvalues : ∀ v ∈ task'.values, v.Fits V m'.nextScope) :
    (task.run k m).Resembles n (fun V σ k => List.Forall₂ (Value.Resembles V σ k))
      (task'.run k m') := by
  have hcur : V.through m'.scope = m'.scope := h.rests.scope
  have hruns := h.run (Q := fun V n vs => ∀ v ∈ vs, v.Fits V n) (Task.run_like k htask)
    (Task.run_respects k hcur hvalues)
  exact hruns.imp fun V σ k vs vs' hvs => forall₂_of_mem hvs.1 fun v _ v' hv' hlike =>
    ⟨hlike, hvs.2 v' hv'⟩

/-! ## What is seen -/

/-- Old scopes look the same in both machines. -/
theorem shown_eq (h : m.Resembles n V σ m') {i : ScopeId} (hi : i < n) :
    (m.store.scope? i).map Scope.shown = (m'.store.scope? i).map Scope.shown := by
  obtain ⟨s, s₁, hs, hs₁, hlike⟩ := h.like.store i i (h.old i hi).2
  change (m'.store.through V).scope? i = some s₁ at hs₁
  rw [Store.scope?_through] at hs₁
  obtain ⟨s', hs', rfl⟩ := Option.map_eq_some_iff.1 hs₁
  have hbindings : s.bindings.map (fun b => (b.1, b.2.shown)) =
      s'.bindings.map fun b => (b.1, b.2.shown) :=
    map_eq_of_forall₂ hlike.bindings fun b b' hb => by rw [hb.1, hb.2.shown_eq]
  -- The scope around it is older, and so the same in both machines.
  have henclosing : s.enclosing = s'.enclosing := by
    obtain ⟨ho, hnone⟩ | ⟨o, o₁, ho, hsome, hpair, hlt, -⟩ := optionRel_cases hlike.enclosing
    · rw [ho]
      exact (Option.map_eq_none_iff.1 hnone).symm
    · obtain ⟨o', ho', rfl⟩ := Option.map_eq_some_iff.1 hsome
      have hlt' := (h.fits.store.scopes i s' (h.visible i) hs').enclosing o' ho' |>.1
      obtain ⟨hthrough, -⟩ := h.old o' (Nat.lt_trans hlt' hi)
      rw [hthrough] at hpair
      rw [ho, ho', (σ.oneToOne (h.old o (Nat.lt_trans hlt hi)).2 hpair).1 rfl]
  rw [hs, hs', Option.map_some, Option.map_some, Scope.shown, Scope.shown, hbindings, henclosing]

/-- No session tells the machines apart. The view carries it from the one to what is shown of the
other, where it is alike. -/
theorem sights_eq (h : m.Resembles n V σ m') (fuel : Nat) (steps : List Session.Step) :
    Session.sights fuel m steps = Session.sights fuel m' steps := by
  have hglobals : σ.Pairs globals globals :=
    (h.old globals (Nat.lt_of_le_of_lt (Nat.zero_le _) h.scope.1)).2
  rw [← Session.sights_through h.rests (h.visible globals)]
  exact Session.perform_map_eq (fun _ _ => Session.MomentLike.sight_eq hglobals)
    (List.forall₂_same.2 fun step _ => .refl step) h.like hglobals

end Resembles

end Machine

/-! ## Runs -/

namespace Run

variable {R : View → Pairing → Nat → α → α → Prop} {S : View → Pairing → Nat → β → β → Prop}

/-- Sequences of runs, with the second ones started in machines that resemble each other. -/
theorem Resembles.bind {r r' : Run α} {f f' : α → Run β} (hr : r.Resembles n R r')
    (hf : ∀ V σ m m' a b, Machine.Resembles n V σ m m' → R V σ m'.nextScope a b →
      (f a m).Resembles n S (f' b m')) : (r >>= f).Resembles n S (r' >>= f') := by
  intro V σ m m' h
  rw [bind_apply, bind_apply]
  have houtcomes := hr V σ m m' h
  generalize r m = o at houtcomes
  generalize r' m' = o' at houtcomes
  cases houtcomes with
  | ok h hab => exact hf _ _ _ _ _ _ h hab
  | failed h => exact .failed h
  | outOfFuel => exact .outOfFuel

end Run

theorem evaluate_resembles (k : Nat) (e : Expr) :
    (evaluate (call k) e).Resembles n Value.Resembles (evaluate (call k) e) :=
  fun _ _ _ _ h => h.run (evaluate_like (call_like k) e (.refl e))
    (evaluate_respects (call_respects _ k) e)

theorem execute_resembles (k : Nat) (s : Stmt) :
    (execute (call k) k s).Resembles n Flow.Resembles (execute (call k) k s) :=
  fun _ _ _ _ h => h.run (execute_like (call_like k) s (.refl s))
    (execute_respects (call_respects _ k) s (.inl h.rests.scope))

/-- Loops resemble each other if their conditions and their bodies do. -/
theorem repeatWhile_resembles {cond cond' : Run Value} {body body' : Run Flow}
    (hcond : cond.Resembles n Value.Resembles cond')
    (hbody : body.Resembles n Flow.Resembles body') (rounds : Nat) :
    (repeatWhile cond body rounds).Resembles n Flow.Resembles
      (repeatWhile cond' body' rounds) := by
  induction rounds with
  | zero => exact fun _ _ _ _ _ => .outOfFuel
  | succ rounds ih =>
    refine .bind hcond fun V σ m m' v v' h hv => ?_
    rw [hv.1.truthy_eq]
    split
    · refine Run.Resembles.bind hbody (fun V σ m m' flow flow' h hflow => ?_) V σ m m' h
      obtain ⟨hlike, hfits⟩ := hflow
      cases hlike with
      | next => exact ih V σ m m' h
      | returned hv => exact .ok h ⟨.returned hv, hfits⟩
    · exact .ok h ⟨.next, trivial⟩

end Treewalk
