import Treewalk.Proofs.Likeness.Store
import Treewalk.Proofs.WellFormed

/-!
# Closed sets of scopes

From the scopes of a closed set no others can be reached. Two stores that have the same in them are
alike under the pairing of each of these scopes with itself, whatever they have in other scopes.
-/

namespace Treewalk

/-- From these scopes no others can be reached. All of them are there, and links between them lead
to older ones. -/
structure Store.Closed (R : ScopeId → Prop) (st : Store) : Prop where
  lt_size : ∀ i, R i → i < st.scopes.size
  enclosing : ∀ i o, R i → st.LiesIn i o → o < i ∧ R o
  outermost : ∀ i s, R i → st.scope? i = some s → s.enclosing = none → i = Machine.globals
  bound : ∀ i s, R i → st.scope? i = some s → ∀ b ∈ s.bindings, ∀ c ∈ b.2.closure?, R c

/-- The stores have the same in these scopes. -/
def Store.Agree (R : ScopeId → Prop) (st st' : Store) : Prop :=
  ∀ i, R i → st'.scope? i = st.scope? i

/-- Each of the scopes corresponds to itself. -/
def Pairing.diagonal (R : ScopeId → Prop) : Pairing where
  Pairs i i' := i = i' ∧ R i
  oneToOne := by
    rintro i _ j _ ⟨rfl, -⟩ ⟨rfl, -⟩
    exact Iff.rfl

variable {R : ScopeId → Prop} {L : Likeness}

/-- A value is like itself if it refers to scopes of the set only. -/
theorem Value.like_diagonal {v : Value} (h : ∀ c ∈ v.closure?, R c) :
    v.Like L (.diagonal R) v := by
  cases v with
  | null => exact .null
  | bool b => exact .bool b
  | number x => exact .number x
  | string s => exact .string s
  | callable c =>
    cases c with
    | native f => exact .callable (.native f)
    | function f =>
      exact .callable (.function (L.refl _) (List.forall₂_same.2 fun t _ => L.refl t)
        (List.forall₂_same.2 fun s _ => .refl s) ⟨rfl, h f.closure rfl⟩)

namespace Store

variable {st st' : Store}

/-- Whether a set is closed depends on the scopes in it alone. -/
theorem Closed.of_agree (h : st.Closed R) (hagree : st.Agree R st') : st'.Closed R where
  lt_size i hi := by
    obtain ⟨s, hs⟩ := scope?_of_lt (h.lt_size i hi)
    exact lt_size_of_scope? ((hagree i hi).trans hs)
  enclosing := by
    rintro i o hi ⟨s, hs, ho⟩
    exact h.enclosing i o hi ⟨s, (hagree i hi).symm.trans hs, ho⟩
  outermost i s hi hs := h.outermost i s hi ((hagree i hi).symm.trans hs)
  bound i s hi hs := h.bound i s hi ((hagree i hi).symm.trans hs)

/-- What two stores have in a closed set is alike, since nothing in it refers to other scopes. -/
theorem Closed.like (h : st.Closed R) (hagree : st.Agree R st') : st.Like L (.diagonal R) st' := by
  rintro i _ ⟨rfl, hi⟩
  obtain ⟨s, hs⟩ := scope?_of_lt (h.lt_size i hi)
  refine ⟨s, s, hs, (hagree i hi).trans hs, ?_, ?_⟩
  · exact List.forall₂_same.2 fun b hb => ⟨rfl, Value.like_diagonal (h.bound i s hi hs b hb)⟩
  · cases ho : s.enclosing with
    | none => exact .none
    | some o =>
      obtain ⟨hlt, hreached⟩ := h.enclosing i o hi ⟨s, hs, ho⟩
      exact .some ⟨⟨rfl, hreached⟩, hlt, hlt⟩

end Store

/-- All the scopes of a well-formed machine make a closed set. -/
theorem Machine.WellFormed.closed {m : Machine} (h : m.WellFormed) :
    m.store.Closed (· < m.nextScope) where
  lt_size _ hi := hi
  enclosing i o hi hlies := ⟨h.enclosing i o hlies, Nat.lt_trans (h.enclosing i o hlies) hi⟩
  outermost i s _ := h.outermost i s
  bound i s _ := h.closures i s

end Treewalk
