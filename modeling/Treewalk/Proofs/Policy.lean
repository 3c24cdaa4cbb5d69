import Treewalk.Proofs.Scopes

/-!
# Policies

A policy asks something of the tokens that stand in trees, by the part that they play there. A tree
obeys the policy if all its tokens do what is asked of them; a value obeys it if it is no function
or a function whose declaration obeys it, and a store if all that is bound in it does. So a policy
that the trees of a program obey can be followed to where its functions are called later.
-/

namespace Treewalk

/-- What is asked of the tokens in trees.

* `name`: of a name that is looked up, assigned to or declared, parameters apart;
* `unary`, `binary`, `logical`: of an operator;
* `paren`: of the closing parenthesis of a call;
* `params`: of the parameters of a function, all together. -/
structure Policy where
  name : Token → Prop
  unary : Token → Prop
  binary : Token → Prop
  logical : Token → Prop
  paren : Token → Prop
  params : List Token → Prop

/-! ## Trees -/

mutual

/-- All tokens in the expression do what the policy asks. -/
def Expr.Obeys (P : Policy) : Expr → Prop
  | .literal _ => True
  | .var name => P.name name
  | .assign name value => P.name name ∧ value.Obeys P
  | .unary op operand => P.unary op ∧ operand.Obeys P
  | .binary lhs op rhs => lhs.Obeys P ∧ P.binary op ∧ rhs.Obeys P
  | .logical lhs op rhs => lhs.Obeys P ∧ P.logical op ∧ rhs.Obeys P
  | .group inner => inner.Obeys P
  | .call callee paren args => callee.Obeys P ∧ P.paren paren ∧ Expr.ObeysAll P args

def Expr.ObeysAll (P : Policy) : List Expr → Prop
  | [] => True
  | e :: es => e.Obeys P ∧ Expr.ObeysAll P es

end

/-- An expression that may be absent obeys the policy. -/
def Expr.ObeysOption (P : Policy) (e : Option Expr) : Prop :=
  ∀ e' ∈ e, e'.Obeys P

mutual

/-- All tokens in the statement, also in the bodies of functions, do what the policy asks. -/
def Stmt.Obeys (P : Policy) : Stmt → Prop
  | .expr e => e.Obeys P
  | .print e => e.Obeys P
  | .var name initializer => P.name name ∧ Expr.ObeysOption P initializer
  | .block body => Stmt.ObeysAll P body
  | .branch cond thenBranch none => cond.Obeys P ∧ thenBranch.Obeys P
  | .branch cond thenBranch (some elseBranch) =>
    cond.Obeys P ∧ thenBranch.Obeys P ∧ elseBranch.Obeys P
  | .loop cond body => cond.Obeys P ∧ body.Obeys P
  | .function name params body => P.name name ∧ P.params params ∧ Stmt.ObeysAll P body
  | .ret _ value => Expr.ObeysOption P value

def Stmt.ObeysAll (P : Policy) : List Stmt → Prop
  | [] => True
  | s :: ss => s.Obeys P ∧ Stmt.ObeysAll P ss

end

theorem Expr.obeysAll_iff {P : Policy} {es : List Expr} :
    Expr.ObeysAll P es ↔ ∀ e ∈ es, e.Obeys P := by
  induction es with
  | nil => simp [ObeysAll]
  | cons e es ih => simp [ObeysAll, ih]

theorem Stmt.obeysAll_iff {P : Policy} {ss : List Stmt} :
    Stmt.ObeysAll P ss ↔ ∀ s ∈ ss, s.Obeys P := by
  induction ss with
  | nil => simp [ObeysAll]
  | cons s ss ih => simp [ObeysAll, ih]

/-! ## Values and scopes -/

/-- A function obeys the policy if its parameters and its body do. -/
def Callable.Obeys (P : Policy) : Callable → Prop
  | .native _ => True
  | .function f => P.params f.params ∧ Stmt.ObeysAll P f.body

def Value.Obeys (P : Policy) : Value → Prop
  | .callable c => c.Obeys P
  | _ => True

def Scope.Obeys (P : Policy) (s : Scope) : Prop :=
  ∀ b ∈ s.bindings, b.2.Obeys P

/-- All that is bound in any scope, reachable or not, obeys the policy. -/
def Store.Obeys (P : Policy) (st : Store) : Prop :=
  ∀ i s, st.scope? i = some s → s.Obeys P

theorem Value.ofLiteral_obeys (P : Policy) (value : Literal) : (Value.ofLiteral value).Obeys P := by
  cases value <;> trivial

/-- The host has no functions to pass but native ones. -/
theorem HostValue.value_obeys (P : Policy) (v : HostValue) : v.value.Obeys P := by
  cases v with
  | literal value => exact Value.ofLiteral_obeys P value
  | native f => trivial

theorem HostValue.values_obey {P : Policy} (vs : List HostValue) :
    ∀ v ∈ vs.map HostValue.value, v.Obeys P := by
  intro v hv
  obtain ⟨w, -, rfl⟩ := List.mem_map.1 hv
  exact w.value_obeys P

namespace Scope

variable {P : Policy} {s : Scope} {name : String} {v : Value}

theorem Obeys.get? (h : s.Obeys P) (hget : s.get? name = some v) : v.Obeys P := by
  rw [Scope.get?, List.lookup_eq_some_iff] at hget
  obtain ⟨before, after, hbindings, -⟩ := hget
  exact h (name, v) (by simp [hbindings])

theorem Obeys.insert (h : s.Obeys P) (hv : v.Obeys P) : (s.insert name v).Obeys P := by
  intro b hb
  obtain rfl | hb := List.mem_cons.1 hb
  · exact hv
  · exact h b hb

theorem Obeys.replace (h : s.Obeys P) (hv : v.Obeys P) : (s.replace name v).Obeys P := by
  intro b hb
  obtain ⟨b', hb', rfl⟩ := List.mem_map.1 hb
  split
  · exact hv
  · exact h b' hb'

theorem Obeys.set (h : s.Obeys P) (hv : v.Obeys P) : (s.set name v).Obeys P := by
  unfold Scope.set
  split
  · exact h.replace hv
  · exact h.insert hv

theorem clear_obeys : s.clear.Obeys P := by
  intro b hb
  cases hb

end Scope

namespace Store

variable {P : Policy} {st : Store}

theorem Obeys.lookup? (h : st.Obeys P) {id : ScopeId} {name : String} {v : Value}
    (hlookup : st.lookup? id name = some v) : v.Obeys P := by
  obtain ⟨i, s, hs, hget⟩ := exists_of_lookup? hlookup
  exact (h i s hs).get? hget

/-- A change of one scope that keeps to the policy. -/
theorem Obeys.modify (h : st.Obeys P) {id : ScopeId} {f : Scope → Scope}
    (hf : ∀ s : Scope, s.Obeys P → (f s).Obeys P) : (st.modify id f).Obeys P := by
  intro i s hs
  rw [scope?_modify] at hs
  split at hs
  · obtain ⟨s', hs', rfl⟩ := Option.map_eq_some_iff.1 hs
    exact hf s' (h i s' hs')
  · exact h i s hs

/-- Nothing is bound in a new scope. -/
theorem Obeys.openScope (h : st.Obeys P) (enclosing : Option ScopeId) :
    (st.openScope enclosing).2.Obeys P := by
  intro i s hs
  rw [scope?_openScope] at hs
  split at hs
  · cases hs
    intro b hb
    cases hb
  · exact h i s hs

end Store

end Treewalk
