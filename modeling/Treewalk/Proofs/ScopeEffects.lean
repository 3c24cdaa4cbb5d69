import Treewalk.Proofs.Parsing.Results

/-!
# What execution declares, and where

Declarations affect the scope that is current, and no other scope that exists. Which names a run may
add is read off the tree that is run; what its calls declare never counts.
-/

namespace Treewalk

/-- However the run ends from this machine, the scopes that exist have grown at most as `may`
allows. -/
def Run.Adds {α : Type} (r : Run α) (m : Machine) (may : ScopeId → String → Prop) : Prop :=
  ∀ after ∈ (r m).machine?, m.store.Grows may after.store

theorem Run.Grows.adds {α : Type} {r : Run α} {m : Machine} {may : ScopeId → String → Prop}
    (h : r.Grows m.scope may) : r.Adds m may :=
  fun after hafter => (h m rfl after hafter).2

/-- An assignment changes values, and leaves every scope with the names that it has. -/
theorem Store.binds_replace (st : Store) (id i : ScopeId) (name x : String) (v : Value) :
    (st.replace id name v).binds i x = st.binds i x := by
  simp only [binds, replace, scope?_modify]
  split
  · cases st.scope? i with
    | none => rfl
    | some s => exact Bool.eq_iff_iff.2 Scope.binds_replace
  · rfl

/-- An assignment changes values, not names. -/
theorem Run.binds_of_assign {name : Token} {v : Value} {m after : Machine}
    (h : after ∈ (Run.assign name v m).machine?) (i : ScopeId) (x : String) :
    after.store.binds i x = m.store.binds i x := by
  simp only [Run.assign] at h
  split at h
  · cases h
    exact Store.binds_replace ..
  · cases h
    rfl

/-- What is read as a statement declares nothing where it stands. -/
theorem Parser.declared_of_statement {σ ε : Type} [Reader σ ε] [View σ] {bound : Nat} {state : σ}
    {s : Stmt} (h : (statement bound state).result = .ok s) : s.declared = [] :=
  ((statement_gives (fun _ => True) bound).1 state (fun _ _ => trivial)).2 s h |>.2

/-- In every machine, and however the run ends: a scope that exists keeps the scope around it and
all its names, and as to new names,

* an expression, a call with any arguments, and a block add none to any scope that exists;
* a statement adds names at most to the scope that is current when it starts;
* the declaration of a variable or a function adds at most its own name there;
* what the parser reads as a statement, and not as a declaration, adds none, be it read at a cursor
  or by any other reader that can be seen as a list of tokens;
* an assignment adds none to any scope at all. -/
theorem declarations_affect_current_scope (fuel : Nat) (m : Machine) :
    (∀ e, (evaluate (call fuel) e).Adds m fun _ _ => False) ∧
    (∀ c args, (call fuel c args).Adds m fun _ _ => False) ∧
    (∀ body, (execute (call fuel) fuel (.block body)).Adds m fun _ _ => False) ∧
    (∀ s, (execute (call fuel) fuel s).Adds m fun i _ => i = m.scope) ∧
    (∀ name initializer, (execute (call fuel) fuel (.var name initializer)).Adds m
      fun i x => i = m.scope ∧ x = name.lexeme) ∧
    (∀ name params body, (execute (call fuel) fuel (.function name params body)).Adds m
      fun i x => i = m.scope ∧ x = name.lexeme) ∧
    (∀ (σ ε : Type) [Parser.Reader σ ε] [Parser.View σ] bound (state : σ) s,
      (Parser.statement bound state).result = .ok s →
      (execute (call fuel) fuel s).Adds m fun _ _ => False) ∧
    (∀ name v, ∀ after ∈ (Run.assign name v m).machine?, ∀ i x,
      after.store.binds i x = m.store.binds i x) := by
  have hcall := call_grows fuel
  refine ⟨fun e => ?_, fun c args => ?_, fun body => ?_, fun s => ?_, fun name initializer => ?_,
    fun name params body => ?_, fun σ ε _ _ bound state s hs => ?_,
    fun name v after hafter i x => ?_⟩
  · exact (evaluate_grows hcall e).adds
  · exact (hcall m.scope _ c args).adds
  · exact (execute_grows hcall (.block body) (by simp [Stmt.declared])).adds
  · exact (execute_grows hcall s fun _ _ => rfl).adds
  · exact (execute_grows hcall _ (by simp [Stmt.declared])).adds
  · exact (execute_grows hcall _ (by simp [Stmt.declared])).adds
  -- Declarations are read elsewhere: a statement has none that count where it stands.
  · exact (execute_grows hcall s (by simp [Parser.declared_of_statement hs])).adds
  · exact Run.binds_of_assign hafter i x

end Treewalk
