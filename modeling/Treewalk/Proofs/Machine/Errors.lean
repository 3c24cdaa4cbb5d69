import Treewalk.Proofs.Machine.Activity
import Treewalk.Proofs.Parsing.Results

/-!
# Who raises which error

Every error has few causes. The lemmas of the first part say for each operation which errors it can
end with, and when; two theorems follow about activities. None that obeys the rules of trees read
from tokens raises an unknown operator. And a name that is already defined is raised by a
declaration whose scope binds the name, unless parameters of one function have the same name.
-/

namespace Treewalk

/-! ## Operations -/

namespace Store

variable {st : Store} {id : ScopeId} {name : Token} {e : RuntimeError}

/-- Reading a name fails only because it is not defined. -/
theorem get_error (h : st.get id name = .error e) : e = .undefinedVariable name := by
  unfold get at h
  split at h
  · cases h
  · cases h
    rfl

/-- Assigning to a name fails only because it is not defined. -/
theorem binder_error (h : st.binder id name = .error e) : e = .undefinedVariable name := by
  unfold binder at h
  split at h
  · cases h
  · cases h
    rfl

/-- Declaring a name fails only because it is taken. -/
theorem checkFree_error (h : st.checkFree id name = .error e) :
    e = .alreadyDefined name ∧ st.binds id name.lexeme := by
  unfold checkFree at h
  split at h
  · cases h
    exact ⟨rfl, ‹_›⟩
  · cases h

end Store

namespace Operator

/-- The kinds of the operators whose operands both have to be numbers. -/
def arithmeticKinds : List TokenKind :=
  [.minus, .star, .slash, .less, .lessEqual, .greater, .greaterEqual]

variable {op paren : Token} {l r v : Value} {e : RuntimeError} {n : Nat}

/-- An operator in front fails because its operand is no number, or because there is no such
operator. -/
theorem unary_error (h : unary op v = .error e) :
    e = .operandMustBeNumber op ∧ op.kind = .minus ∨
      e = .unknownOperator op ∧ op.kind ∉ unaryKinds := by
  unfold unary at h
  split at h
  · rename_i hkind
    split at h
    · cases h
    · cases h
      exact .inl ⟨rfl, hkind⟩
  · cases h
  · cases h
    exact .inr ⟨rfl, by grind [unaryKinds]⟩

/-- Addition has one error for all operands that it cannot add. -/
theorem add_error (h : add op l r = .error e) : e = .invalidAddOperands op := by
  unfold add at h
  split at h <;> cases h
  rfl

/-- Where the operator has an operation on numbers, only the operands can be wrong. -/
theorem onNumbers_error {operation? : TokenKind → Option (Float → Float → Literal)}
    (hkind : (operation? op.kind).isSome) (h : onNumbers operation? op l r = .error e) :
    e = .operandsMustBeNumbers op := by
  unfold onNumbers at h
  split at h
  · split at h
    · cases h
    · rename_i hnone
      rw [hnone] at hkind
      cases hkind
  · cases h
    rfl

/-- The error of an operator between operands tells what kind of operator it is. -/
theorem binary_error (h : binary op l r = .error e) :
    e = .invalidAddOperands op ∧ op.kind = .plus ∨
      e = .operandsMustBeNumbers op ∧ op.kind ∈ arithmeticKinds ∨
      e = .unknownOperator op ∧ op.kind ∉ binaryKinds := by
  unfold binary at h
  split at h
  case h_1 hkind => exact .inl ⟨add_error h, hkind⟩
  case h_9 | h_10 => cases h
  case h_11 =>
    cases h
    refine .inr (.inr ⟨rfl, ?_⟩)
    simp only [binaryKinds, List.mem_cons]
    grind
  -- These are the operators on numbers, each of which its table knows.
  all_goals
    rename_i hkind
    exact .inr (.inl ⟨onNumbers_error (by rw [hkind]; rfl) h, by rw [hkind]; decide⟩)

/-- An operator that decides early fails only if it is neither `and` nor `or`. -/
theorem decided_error (h : decided op v = .error e) :
    e = .unknownOperator op ∧ op.kind ∉ logicalKinds := by
  unfold decided at h
  split at h
  · cases h
  · cases h
  · cases h
    exact ⟨rfl, by grind [logicalKinds]⟩

/-- A call fails before it starts because the value cannot be called, or because of the number of
arguments. -/
theorem callee_error (h : callee paren v n = .error e) :
    e = .notCallable paren ∨ ∃ expected, expected ≠ n ∧ e = .arityMismatch paren expected n := by
  unfold callee at h
  split at h
  · cases h
    exact .inl rfl
  · split at h
    · cases h
    · rename_i c _ hne
      cases h
      exact .inr ⟨c.arity, hne, rfl⟩

end Operator

/-- Parameters can only fail because one of them is taken. -/
theorem bindParams_error {scope : ScopeId} {params : List Token} {args : List Value} {m : Machine}
    {e : RuntimeError} (h : (bindParams scope params args m).error? = some e) :
    ∃ p ∈ params, e = .alreadyDefined p := by
  induction params generalizing args m with
  | nil => cases h
  | cons p ps ih =>
    cases args with
    | nil => cases h
    | cons v vs =>
      rw [bindParams] at h
      rcases Run.error?_bind h with h | ⟨_, m₁, _, h⟩
      · exact ⟨p, List.mem_cons_self, (Store.checkFree_error (Run.define_error? h)).1⟩
      · obtain ⟨q, hq, he⟩ := ih h
        exact ⟨q, List.mem_cons_of_mem p hq, he⟩

/-! ## Unknown operators -/

/-- In trees that were read from tokens, no operator is unknown to the evaluator: the kinds that the
grammar takes for operators are those that the operations know. -/
theorem Activity.Raises.ne_unknownOperator {Q : Token → Prop} {a : Activity} {e : RuntimeError}
    (h : a.Raises e) (hobeys : a.Obeys (.read Q)) (op : Token) : e ≠ .unknownOperator op := by
  rintro rfl
  have htask := hobeys.task
  -- One case for each way to raise an error; only three of them could be about an operator.
  cases h with
  | get h => cases Store.get_error h
  | assign _ h => cases Store.binder_error h
  | unary _ h =>
    obtain ⟨he, -⟩ | ⟨-, hkind⟩ := Operator.unary_error h
    · cases he
    · exact hkind htask.1.1
  | binary _ _ h =>
    obtain ⟨he, -⟩ | ⟨he, -⟩ | ⟨-, hkind⟩ := Operator.binary_error h
    · cases he
    · cases he
    · exact hkind htask.2.1.1
  | logical _ h => exact (Operator.decided_error h).2 htask.2.1.1
  | callee _ _ h =>
    obtain he | ⟨_, -, he⟩ := Operator.callee_error h
    · cases he
    · cases he
  | var _ h => cases (Store.checkFree_error h).1
  | function h => cases (Store.checkFree_error h).1
  | params h =>
    obtain ⟨p, -, he⟩ := bindParams_error h
    cases he

/-! ## Names that are already defined -/

/-- A new scope binds nothing. -/
theorem Store.binds_openScope (st : Store) (enclosing : Option ScopeId) (x : String) :
    ¬(st.openScope enclosing).2.binds st.scopes.size x := by
  simp [binds, scope?_openScope, Scope.binds, Scope.get?]

/-- A binding adds its own name and no other. -/
theorem Store.binds_of_insert {st : Store} {id i : ScopeId} {name x : String} {v : Value}
    (h : (st.insert id name v).binds i x) : x = name ∨ st.binds i x := by
  simp only [binds, insert, scope?_modify] at h ⊢
  split at h
  · cases hs : st.scope? i with
    | none => simp [hs] at h
    | some s =>
      rw [hs] at h
      exact Scope.binds_insert.1 h
  · exact .inr h

/-- Parameters with different names can be bound in a scope that binds none of them. -/
theorem exists_bindParams {scope : ScopeId} {params : List Token} (args : List Value) {m : Machine}
    (hdistinct : (params.map Token.lexeme).Nodup)
    (hfree : ∀ p ∈ params, ¬m.store.binds scope p.lexeme) :
    ∃ after, bindParams scope params args m = .ok () after := by
  induction params generalizing args m with
  | nil => exact ⟨m, rfl⟩
  | cons p ps ih =>
    cases args with
    | nil => exact ⟨m, rfl⟩
    | cons v vs =>
      rw [List.map_cons, List.nodup_cons] at hdistinct
      have hdefine : Run.define scope p v m = .ok () ({ m with
          store := m.store.insert scope p.lexeme v }.note (.defined p.lexeme v)) := by
        simp [Run.define, Store.checkFree, hfree p List.mem_cons_self]
      rw [bindParams, Run.bind_apply, hdefine]
      refine ih vs hdistinct.2 fun q hq hbinds => ?_
      -- The only name that the scope has got is that of the first parameter.
      obtain heq | hbinds := Store.binds_of_insert hbinds
      · exact hdistinct.1 (heq ▸ List.mem_map_of_mem hq)
      · exact hfree q (List.mem_cons_of_mem p hq) hbinds

/-- The parameters of every function have different names. -/
def Policy.distinct : Policy where
  name _ := True
  unary _ := True
  binary _ := True
  logical _ := True
  paren _ := True
  params ps := (ps.map Token.lexeme).Nodup

namespace Activity

/-- The activity declares a name in the current scope, which already binds it: a variable, when its
initializer has been evaluated, or a function. -/
inductive Redeclares (name : Token) : Activity → Prop where
  | var {k initializer m v m₁} : evaluateOption (call k) initializer m = .ok v m₁ →
      m₁.scope = m.scope → m₁.store.binds m.scope name.lexeme →
      Redeclares name ⟨k, .execute (.var name initializer), m⟩
  | function {k params body m} : m.store.binds m.scope name.lexeme →
      Redeclares name ⟨k, .execute (.function name params body), m⟩

/-- The parameters of a call are bound in the new scope of the call. -/
theorem exists_params {k : Nat} {f : Function} {args : List Value} {m : Machine}
    (h : Obeys .distinct ⟨k, .call (.function f) args, m⟩) :
    ∃ after, bindParams m.nextScope f.params args (m.opened f.closure) = .ok () after :=
  exists_bindParams args h.task.1.1 fun p _ => Store.binds_openScope m.store _ p.lexeme

/-- If parameters have different names, only declarations raise this error, and only because the
current scope binds the name. -/
theorem Raises.redeclares {a : Activity} {name : Token} (h : a.Raises (.alreadyDefined name))
    (hobeys : a.Obeys .distinct) : a.Redeclares name := by
  cases h with
  | get h => cases Store.get_error h
  | assign _ h => cases Store.binder_error h
  | unary _ h =>
    obtain ⟨he, -⟩ | ⟨he, -⟩ := Operator.unary_error h
    · cases he
    · cases he
  | binary _ _ h =>
    obtain ⟨he, -⟩ | ⟨he, -⟩ | ⟨he, -⟩ := Operator.binary_error h
    · cases he
    · cases he
    · cases he
  | logical _ h => cases (Operator.decided_error h).1
  | callee _ _ h =>
    obtain he | ⟨_, -, he⟩ := Operator.callee_error h
    · cases he
    · cases he
  | @var k name' initializer m v m₁ _ hinit h =>
    obtain ⟨he, hbinds⟩ := Store.checkFree_error h
    cases he
    -- The initializer comes back to the scope in which it started, so that the scope is the one of
    -- the declaration.
    have hgrows : (evaluateOption (call k) initializer).Grows m.scope fun _ _ => False :=
      evaluateOption_grows (call_grows k) initializer
    have hscope := (hgrows m rfl m₁ (by rw [hinit]; rfl)).1
    rw [hscope] at hbinds
    exact .var hinit hscope hbinds
  | function h =>
    obtain ⟨he, hbinds⟩ := Store.checkFree_error h
    cases he
    exact .function hbinds
  | params h =>
    obtain ⟨after, hafter⟩ := exists_params hobeys
    rw [hafter] at h
    cases h

end Activity

end Treewalk
