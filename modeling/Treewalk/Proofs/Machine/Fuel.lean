import Treewalk.Proofs.Machine.Built

/-!
# Fuel

A run that ends with fuel to spare ends in the same way with more of it. `Run.Extends` compares two
runs in this way and is proved along the definitions of evaluation and execution.
-/

namespace Treewalk

/-- Where `r` is not out of fuel, `r'` does the same. -/
def Run.Extends {α : Type} (r r' : Run α) : Prop :=
  ∀ m, r m = .outOfFuel ∨ r' m = r m

namespace Run.Extends

variable {α β : Type} {r r' : Run α} {f f' : α → Run β}

theorem refl (r : Run α) : r.Extends r :=
  fun _ => .inr rfl

theorem exhausted (r : Run α) : Run.exhausted.Extends r :=
  fun _ => .inl rfl

/-- If the first run ends, both sequences go on from the same machine with the same result. -/
theorem bind (hr : r.Extends r') (hf : ∀ a, (f a).Extends (f' a)) :
    (r >>= f).Extends (r' >>= f') := by
  intro m
  rw [bind_apply, bind_apply]
  obtain hfuel | heq := hr m
  · exact .inl (by rw [hfuel]; rfl)
  · rw [heq]
    cases r m with
    | ok a after => exact hf a after
    | failed e after => exact .inr rfl
    | outOfFuel => exact .inl rfl

theorem bind_left (hr : r.Extends r') (f : α → Run β) : (r >>= f).Extends (r' >>= f) :=
  hr.bind fun a => .refl (f a)

/-- Entering and leaving a scope takes no fuel. -/
theorem within (scope : ScopeId) (hr : r.Extends r') :
    (within scope r).Extends (within scope r') := by
  intro m
  rw [within_apply, within_apply]
  obtain hfuel | heq := hr { m with scope }
  · exact .inl (by rw [hfuel]; rfl)
  · exact .inr (by rw [heq])

end Run.Extends

section
variable {apply apply' : Callable → List Value → Run Value}

mutual

/-- With more fuel in calls, an expression is evaluated alike. -/
theorem evaluate_extends (h : ∀ c args, (apply c args).Extends (apply' c args)) :
    (e : Expr) → (evaluate apply e).Extends (evaluate apply' e)
  | .literal value => by rw [evaluate, evaluate]; exact .refl _
  | .var name => by rw [evaluate, evaluate]; exact .refl _
  | .assign name e => by
    rw [evaluate, evaluate]
    exact .bind_left (evaluate_extends h e) _
  | .unary op e => by
    rw [evaluate, evaluate]
    exact .bind_left (evaluate_extends h e) _
  | .binary l op r => by
    rw [evaluate, evaluate]
    exact .bind (evaluate_extends h l) fun x => .bind_left (evaluate_extends h r) _
  | .logical l op r => by
    rw [evaluate, evaluate]
    refine .bind (evaluate_extends h l) fun x => .bind (.refl _) fun decided => ?_
    split
    · exact .refl _
    · exact evaluate_extends h r
  | .group e => by rw [evaluate, evaluate]; exact evaluate_extends h e
  | .call e paren args => by
    rw [evaluate, evaluate]
    exact .bind (evaluate_extends h e) fun f => .bind (evaluateAll_extends h args) fun vs =>
      .bind (.refl _) fun c => .bind (.refl _) fun _ => h c vs

theorem evaluateAll_extends (h : ∀ c args, (apply c args).Extends (apply' c args)) :
    (es : List Expr) → (evaluateAll apply es).Extends (evaluateAll apply' es)
  | [] => by rw [evaluateAll, evaluateAll]; exact .refl _
  | e :: es => by
    rw [evaluateAll, evaluateAll]
    exact .bind (evaluate_extends h e) fun v => .bind_left (evaluateAll_extends h es) _

end

theorem evaluateOption_extends (h : ∀ c args, (apply c args).Extends (apply' c args))
    (e : Option Expr) : (evaluateOption apply e).Extends (evaluateOption apply' e) := by
  cases e with
  | none => exact .refl _
  | some e => exact evaluate_extends h e

/-- A loop that ends within its fuel takes the same rounds with more. -/
theorem repeatWhile_extends {cond cond' : Run Value} {body body' : Run Flow}
    (hcond : cond.Extends cond') (hbody : body.Extends body') {fuel fuel' : Nat}
    (hle : fuel ≤ fuel') :
    (repeatWhile cond body fuel).Extends (repeatWhile cond' body' fuel') := by
  -- Each round spends one unit, and both loops have the round as long as the first has fuel.
  induction fuel generalizing fuel' with
  | zero => exact .exhausted _
  | succ fuel ih =>
    obtain ⟨fuel', rfl⟩ := Nat.exists_eq_add_of_lt hle
    refine .bind hcond fun v => ?_
    split
    · refine .bind hbody fun flow => ?_
      cases flow with
      | next => exact ih (by omega)
      | returned v => exact .refl _
    · exact .refl _

mutual

/-- With more fuel in calls and loops, a statement is executed alike. -/
theorem execute_extends (h : ∀ c args, (apply c args).Extends (apply' c args)) {fuel fuel' : Nat}
    (hle : fuel ≤ fuel') : (s : Stmt) → (execute apply fuel s).Extends (execute apply' fuel' s)
  | .expr e => by
    rw [execute, execute]
    exact .bind_left (evaluate_extends h e) _
  | .print e => by
    rw [execute, execute]
    exact .bind_left (evaluate_extends h e) _
  | .var name initializer => by
    rw [execute, execute]
    exact .bind_left (evaluateOption_extends h initializer) _
  | .block body => by
    rw [execute, execute]
    exact .bind (.refl _) fun scope => .bind (.refl _) fun inner =>
      .within inner (executeAll_extends h hle body)
  | .branch cond thenBranch none => by
    rw [execute, execute]
    refine .bind (evaluate_extends h cond) fun v => ?_
    split
    · exact execute_extends h hle thenBranch
    · exact .refl _
  | .branch cond thenBranch (some elseBranch) => by
    rw [execute, execute]
    refine .bind (evaluate_extends h cond) fun v => ?_
    split
    · exact execute_extends h hle thenBranch
    · exact execute_extends h hle elseBranch
  | .loop cond body => by
    rw [execute, execute]
    exact repeatWhile_extends (evaluate_extends h cond) (execute_extends h hle body) hle
  | .function name params body => by
    rw [execute, execute]
    exact .refl _
  | .ret keyword value => by
    rw [execute, execute]
    exact .bind_left (evaluateOption_extends h value) _

/-- Statements one after the other. -/
theorem executeAll_extends (h : ∀ c args, (apply c args).Extends (apply' c args))
    {fuel fuel' : Nat} (hle : fuel ≤ fuel') :
    (ss : List Stmt) → (executeAll apply fuel ss).Extends (executeAll apply' fuel' ss)
  | [] => by rw [executeAll, executeAll]; exact .refl _
  | s :: rest => by
    rw [executeAll, executeAll]
    refine .bind (execute_extends h hle s) fun flow => ?_
    cases flow with
    | next => exact executeAll_extends h hle rest
    | returned v => exact .refl _

end

end

/-- A call that ends within its fuel ends alike with more. -/
theorem call_extends {fuel fuel' : Nat} (hle : fuel ≤ fuel') (c : Callable) (args : List Value) :
    (call fuel c args).Extends (call fuel' c args) := by
  induction fuel generalizing fuel' c args with
  | zero =>
    cases c with
    | native f => cases fuel' <;> exact .refl _
    | function f => exact .exhausted _
  | succ fuel ih =>
    obtain ⟨fuel', rfl⟩ := Nat.exists_eq_add_of_lt hle
    cases c with
    | native f => exact .refl _
    | function f =>
      -- A call spends fuel on its own, and hands what is left to the body and the calls in it.
      have hbody := executeAll_extends (fun c args => ih (Nat.le_add_right fuel fuel') c args)
        (Nat.le_add_right fuel fuel') f.body
      exact .bind (.refl _) fun scope => .bind (.refl _) fun _ => .bind_left (hbody.within scope) _

/-- Statements that end with some fuel end in the same way with more of it. -/
theorem executeAll_fuel {fuel fuel' : Nat} (hle : fuel ≤ fuel') {statements : List Stmt}
    {m : Machine} (h : executeAll (call fuel) fuel statements m ≠ .outOfFuel) :
    executeAll (call fuel') fuel' statements m = executeAll (call fuel) fuel statements m :=
  (executeAll_extends (call_extends hle) hle statements m).resolve_left h

end Treewalk
