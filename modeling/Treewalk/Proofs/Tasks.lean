import Treewalk.Proofs.Likeness.Evaluation
import Treewalk.Proofs.Machine.Growth
import Treewalk.Proofs.Views.Run

/-!
# Tasks

Expressions, statements and calls are different kinds of tasks, but much is true of all of them. A
task starts with some values, does its work in a machine and ends with some values. This module
says once, for all tasks, what the modules before it say for each kind.
-/

namespace Treewalk

/-- The values that statements end with. -/
def Flow.values : Flow → List Value
  | .next => []
  | .returned v => [v]

namespace Task

/-- The values that a task starts with. -/
def values : Task → List Value
  | .call c args => .callable c :: args
  | _ => []

/-- Does what the task says. The result is the values that it ends with. -/
def run (k : Nat) : Task → Run (List Value)
  | .evaluate e => do
    let v ← Treewalk.evaluate (Treewalk.call k) e
    pure [v]
  | .evaluateAll es => Treewalk.evaluateAll (Treewalk.call k) es
  | .execute s => do
    let flow ← Treewalk.execute (Treewalk.call k) k s
    pure flow.values
  | .executeAll ss => do
    let flow ← Treewalk.executeAll (Treewalk.call k) k ss
    pure flow.values
  | .call c args => do
    let v ← Treewalk.call k c args
    pure [v]

/-- Tasks are built from runs that grow the machine. -/
theorem run_built (k : Nat) (task : Task) : (task.run k).Built := by
  cases task with
  | evaluate e => exact .bind (evaluate_built (call_built k) e) fun _ => .pure _
  | evaluateAll es => exact evaluateAll_built (call_built k) es
  | execute s => exact .bind (execute_built (call_built k) k s) fun _ => .pure _
  | executeAll ss => exact .bind (executeAll_built (call_built k) k ss) fun _ => .pure _
  | call c args => exact .bind (call_built k c args) fun _ => .pure _

/-- Whether a task ends with a result or with an error, the scope that was current before is
current again. -/
theorem scope_of_run (k : Nat) (task : Task) {m after : Machine}
    (h : after ∈ (task.run k m).machine?) : after.scope = m.scope := by
  have hgrows : (task.run k).Grows m.scope fun _ _ => True := by
    cases task with
    | evaluate e => exact .bind (evaluate_grows (call_grows k) e) fun _ => .pure _
    | evaluateAll es => exact evaluateAll_grows (call_grows k) es
    | execute s =>
      exact .bind (execute_grows (call_grows k) s fun _ _ => trivial) fun _ => .pure _
    | executeAll ss =>
      exact .bind (executeAll_grows (call_grows k) ss fun _ _ => trivial) fun _ => .pure _
    | call c args => exact .bind (call_grows k _ _ c args) fun _ => .pure _
  exact (hgrows m rfl after h).1

/-- If the values that a task starts with fit a view, then so do those that it ends with. -/
theorem run_respects (k : Nat) {V : View} {task : Task} {cur : ScopeId} {n : Nat}
    (hcur : V.through cur = cur) (h : ∀ v ∈ task.values, v.Fits V n) :
    (task.run k).Respects V cur n (fun n vs => ∀ v ∈ vs, v.Fits V n) (task.run k) := by
  have hcall := call_respects V k
  have hsingle : ∀ {n : Nat} {v : Value}, v.Fits V n → ∀ w ∈ [v], w.Fits V n := by
    simp
  have hflow : ∀ {n : Nat} {flow : Flow}, flow.Fits V n → ∀ w ∈ flow.values, w.Fits V n := by
    intro n flow hflow
    cases flow with
    | next => simp [Flow.values]
    | returned v => exact hsingle hflow
  cases task with
  | evaluate e =>
    exact .bind (evaluate_respects hcall e) fun _ _ _ hv => .pure fun _ hle => hsingle (hv.mono hle)
  | evaluateAll es => exact evaluateAll_respects hcall es
  | execute s =>
    exact .bind (execute_respects hcall s (.inl hcur)) fun _ _ _ h =>
      .pure fun _ hle => hflow (h.mono hle)
  | executeAll ss =>
    exact .bind (executeAll_respects hcall ss (.inl hcur)) fun _ _ _ h =>
      .pure fun _ hle => hflow (h.mono hle)
  | call c args =>
    refine .bind (hcall _ _ c args (h _ List.mem_cons_self)
      fun v hv => h v (List.mem_cons_of_mem _ hv)) fun _ _ _ hv => ?_
    exact .pure fun _ hle => hsingle (hv.mono hle)

/-- Tasks are alike if what they are made of is. -/
inductive Like (L : Likeness) (ρ : Pairing) : Task → Task → Prop where
  | evaluate {e e'} : e.Like L e' → Like L ρ (.evaluate e) (.evaluate e')
  | evaluateAll {es es'} : List.Forall₂ (Expr.Like L) es es' →
      Like L ρ (.evaluateAll es) (.evaluateAll es')
  | execute {s s'} : s.Like L s' → Like L ρ (.execute s) (.execute s')
  | executeAll {ss ss'} : List.Forall₂ (Stmt.Like L) ss ss' →
      Like L ρ (.executeAll ss) (.executeAll ss')
  | call {c c' args args'} : c.Like L ρ c' → List.Forall₂ (Value.Like L ρ) args args' →
      Like L ρ (.call c args) (.call c' args')

/-- A task is like itself under pairings that make the values so that it starts with. -/
theorem Like.of_values {L : Likeness} {ρ : Pairing} {task : Task}
    (h : ∀ v ∈ task.values, v.Like L ρ v) : task.Like L ρ task := by
  cases task with
  | evaluate e => exact .evaluate (.refl e)
  | evaluateAll es => exact .evaluateAll (Expr.likeAll_refl es)
  | execute s => exact .execute (.refl s)
  | executeAll ss => exact .executeAll (Stmt.likeAll_refl ss)
  | call c args =>
    have hargs : List.Forall₂ (Value.Like L ρ) args args :=
      List.forall₂_same.2 fun v hv => h v (List.mem_cons_of_mem _ hv)
    cases h _ List.mem_cons_self with
    | callable hc => exact .call hc hargs

/-- Tasks that are alike are done alike. -/
theorem run_like (k : Nat) {L : Likeness} {ρ : Pairing} {task task' : Task}
    (h : task.Like L ρ task') :
    (task.run k).Like L ρ (fun σ => List.Forall₂ (Value.Like L σ)) (task'.run k) := by
  have hcall : CallsLike L (Treewalk.call k) (Treewalk.call k) := call_like k
  -- Pairs are only added, so that a value that was returned is still like its counterpart.
  have hflow : ∀ {σ τ : Pairing} {flow flow' : Flow}, flow.Like L σ flow' → σ ≤ τ →
      List.Forall₂ (Value.Like L τ) flow.values flow'.values := by
    intro σ τ flow flow' hflow hle
    cases hflow with
    | next => exact .nil
    | returned hv => exact .cons (hv.mono hle) .nil
  cases h with
  | evaluate he =>
    exact .bind (evaluate_like hcall _ he) fun _ _ _ _ hv =>
      .pure fun _ hle => .cons (hv.mono hle) .nil
  | evaluateAll hes => exact evaluateAll_like hcall _ hes
  | execute hs => exact .bind (execute_like hcall _ hs) fun _ _ _ _ h => .pure fun _ => hflow h
  | executeAll hss =>
    exact .bind (executeAll_like hcall _ hss) fun _ _ _ _ h => .pure fun _ => hflow h
  | call hc hargs =>
    exact .bind (hcall ρ _ _ _ _ hc hargs) fun _ _ _ _ hv =>
      .pure fun _ hle => .cons (hv.mono hle) .nil

end Task

end Treewalk
