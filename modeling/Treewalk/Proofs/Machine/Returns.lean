import Treewalk.Proofs.Machine.Built
import Treewalk.Proofs.Parsing.Grammar

/-!
# Returns

A statement without a return outside the functions that it declares never returns. The grammar
allows no other statements at the top of a program, so that a program always goes on to its end or
fails.
-/

namespace Treewalk

mutual

/-- Whether the statement has no return in it, but for the bodies of the functions that it
declares. -/
def Stmt.returnFree : Stmt → Bool
  | .expr _ => true
  | .print _ => true
  | .var _ _ => true
  | .block body => Stmt.returnFreeAll body
  | .branch _ thenBranch none => thenBranch.returnFree
  | .branch _ thenBranch (some elseBranch) => thenBranch.returnFree && elseBranch.returnFree
  | .loop _ body => body.returnFree
  | .function _ _ _ => true
  | .ret _ _ => false

/-- Whether none of the statements has a return in it. -/
def Stmt.returnFreeAll : List Stmt → Bool
  | [] => true
  | s :: ss => s.returnFree && Stmt.returnFreeAll ss

end

/-- Statements without returns are so one by one. -/
theorem Stmt.returnFree_of_mem {ss : List Stmt} (h : Stmt.returnFreeAll ss) {s : Stmt}
    (hs : s ∈ ss) : s.returnFree := by
  induction ss with
  | nil => cases hs
  | cons s' ss ih =>
    rw [returnFreeAll, Bool.and_eq_true] at h
    obtain rfl | hs := List.mem_cons.1 hs
    · exact h.1
    · exact ih h.2 hs

/-! ## Execution -/

/-- Whatever result the run has satisfies `P`. -/
def Run.Gives {α : Type} (r : Run α) (P : α → Prop) : Prop :=
  ∀ m a after, r m = .ok a after → P a

namespace Run.Gives

variable {α β : Type} {r : Run α} {f : α → Run β} {P : β → Prop}

theorem pure {b : β} (h : P b) : (pure b : Run β).Gives P := by
  intro m a after hok
  cases hok
  exact h

theorem exhausted : (Run.exhausted : Run β).Gives P := by
  intro m a after hok
  cases hok

/-- What the second run gives is asked only for results that the first one gives. -/
theorem bind {Q : α → Prop} (hr : r.Gives Q) (hf : ∀ a, Q a → (f a).Gives P) :
    (r >>= f).Gives P := by
  intro m b after hok
  rw [bind_apply] at hok
  cases h : r m with
  | ok a mid => exact hf a (hr _ _ _ h) mid _ _ (h ▸ hok)
  | failed e mid => rw [h] at hok; cases hok
  | outOfFuel => rw [h] at hok; cases hok

/-- A first run whose result does not matter. -/
theorem bind_right (hf : ∀ a, (f a).Gives P) : (r >>= f).Gives P :=
  bind (Q := fun _ => True) (fun _ _ _ _ => trivial) fun a _ => hf a

/-- The scope in which something runs does not change its result. -/
theorem within {r : Run β} (scope : ScopeId) (hr : r.Gives P) : (within scope r).Gives P := by
  intro m b after hok
  rw [within_apply] at hok
  cases h : r { m with scope } with
  | ok a mid =>
    rw [h] at hok
    cases hok
    exact hr _ _ _ h
  | failed e mid => rw [h] at hok; cases hok
  | outOfFuel => rw [h] at hok; cases hok

end Run.Gives

/-- A loop whose body never returns goes on behind it. -/
theorem repeatWhile_next {cond : Run Value} {body : Run Flow} (h : body.Gives (· = .next))
    (fuel : Nat) : (repeatWhile cond body fuel).Gives (· = .next) := by
  induction fuel with
  | zero => exact .exhausted
  | succ fuel ih =>
    refine .bind_right fun v => ?_
    split
    · refine .bind h fun flow hflow => ?_
      rw [hflow]
      exact ih
    · exact .pure rfl

mutual

/-- A statement without returns goes on to the next one. -/
theorem execute_next {apply : Callable → List Value → Run Value} {fuel : Nat} :
    (s : Stmt) → s.returnFree → (execute apply fuel s).Gives (· = .next)
  | .expr e, _ => by
    rw [execute]
    exact .bind_right fun _ => .pure rfl
  | .print e, _ => by
    rw [execute]
    exact .bind_right fun _ => .bind_right fun _ => .pure rfl
  | .var name initializer, _ => by
    rw [execute]
    exact .bind_right fun _ => .bind_right fun _ => .bind_right fun _ => .pure rfl
  | .block body, h => by
    rw [execute]
    rw [Stmt.returnFree] at h
    exact .bind_right fun _ => .bind_right fun _ => .within _ (executeAll_next body h)
  | .branch cond thenBranch none, h => by
    rw [execute]
    rw [Stmt.returnFree] at h
    refine .bind_right fun v => ?_
    split
    · exact execute_next thenBranch h
    · exact .pure rfl
  | .branch cond thenBranch (some elseBranch), h => by
    rw [execute]
    rw [Stmt.returnFree, Bool.and_eq_true] at h
    refine .bind_right fun v => ?_
    split
    · exact execute_next thenBranch h.1
    · exact execute_next elseBranch h.2
  | .loop cond body, h => by
    rw [execute]
    rw [Stmt.returnFree] at h
    exact repeatWhile_next (execute_next body h) fuel
  -- The body may return, but it is not executed here.
  | .function name params body, _ => by
    rw [execute]
    exact .bind_right fun _ => .bind_right fun _ => .pure rfl
  | .ret keyword value, h => by
    rw [Stmt.returnFree] at h
    cases h

theorem executeAll_next {apply : Callable → List Value → Run Value} {fuel : Nat} :
    (ss : List Stmt) → Stmt.returnFreeAll ss → (executeAll apply fuel ss).Gives (· = .next)
  | [], _ => by
    rw [executeAll]
    exact .pure rfl
  | s :: rest, h => by
    rw [executeAll]
    rw [Stmt.returnFreeAll, Bool.and_eq_true] at h
    -- The first statement goes on to the next one, and so the rest is executed.
    refine .bind (execute_next s h.1) fun flow hflow => ?_
    rw [hflow]
    exact executeAll_next rest h.2

end

/-! ## The grammar -/

namespace Grammar

/-- A declaration of a variable has only expressions in it. -/
theorem Variable.returnFree {ts : List Token} {s : Stmt} (h : Variable ts s) : s.returnFree := by
  cases h <;> simp [Stmt.returnFree]

theorem Initializer.returnFree {ts : List Token} {s : Stmt} (h : Initializer ts (some s)) :
    s.returnFree := by
  cases h with
  | var h => exact h.returnFree
  | expression => simp [Stmt.returnFree]

/-- A loop with three clauses returns only if its body does: the clauses around it are not
returns. -/
theorem loopForm_returnFree {cond : Option Expr} {body : Stmt} {first : Option Stmt}
    {increment : Option Expr} (hbody : body.returnFree)
    (hfirst : ∀ s, first = some s → s.returnFree) :
    (loopForm cond body first increment).returnFree := by
  cases first <;> cases increment <;>
    simp_all [loopForm, Stmt.returnFree, Stmt.returnFreeAll]

-- The recursion is on derivations, whose indices have to be variables: that the statement stands
-- outside of functions is therefore an equation.
mutual

/-- Outside of functions the grammar derives no return. -/
theorem Statement.returnFree {fn d : Bool} {ts : List Token} {s : Stmt} :
    Statement fn d ts s → fn = false → s.returnFree
  | .expr _ _, _ => by rw [Stmt.returnFree]
  | .print _ _ _, _ => by rw [Stmt.returnFree]
  | .ret _ _ _, hfn => nomatch hfn
  | .block _ h _, hfn => by rw [Stmt.returnFree]; exact h.returnFree hfn
  | .branch _ _ _ _ h, hfn => by rw [Stmt.returnFree]; exact h.returnFree hfn
  | .branchElse _ _ _ _ h _ h', hfn => by
    rw [Stmt.returnFree, Bool.and_eq_true]
    exact ⟨h.returnFree hfn, h'.returnFree hfn⟩
  | .loop _ _ _ _ h, hfn => by rw [Stmt.returnFree]; exact h.returnFree hfn
  | .forLoop _ _ hfirst _ _ _ _ h, hfn =>
    loopForm_returnFree (h.returnFree hfn) fun s hs => by subst hs; exact hfirst.returnFree

/-- A function may have returns in its body, which do not count. -/
theorem Declaration.returnFree {fn : Bool} {ts : List Token} {s : Stmt} :
    Declaration fn ts s → fn = false → s.returnFree
  | .function _ _ _ _ _ _ _ _ _ _, _ => by rw [Stmt.returnFree]
  | .var h, _ => h.returnFree
  | .statement h, hfn => h.returnFree hfn

theorem Declarations.returnFree {fn : Bool} {ts : List Token} {ss : List Stmt} :
    Declarations fn ts ss → fn = false → Stmt.returnFreeAll ss
  | .nil, _ => by rw [Stmt.returnFreeAll]
  | .cons h hrest, hfn => by
    rw [Stmt.returnFreeAll, Bool.and_eq_true]
    exact ⟨h.returnFree hfn, hrest.returnFree hfn⟩

end

end Grammar

end Treewalk
