import Treewalk.Proofs.Views.Run

/-!
# Well-formed machines

In a well-formed machine all scopes that something refers to are there: the scope that is current,
the scopes in which other ones lie, and the scopes in which functions were declared. A scope lies in
an older one, and only the global scope lies in none. So from every scope there is a chain of scopes
outwards that ends with the global scope and comes to no scope twice, and a name is looked up along
this chain (`Store.Chain.lookup?_eq`).

Well-formed machines are those that fit the view that hides nothing and looks through nothing
(`Machine.wellFormed_iff_fits`), and so whatever respects all views keeps machines well formed.
-/

namespace Treewalk

/-- The first scope lies right in the second one. -/
def Store.LiesIn (st : Store) (i o : ScopeId) : Prop :=
  ∃ s, st.scope? i = some s ∧ s.enclosing = some o

/-- The scopes from one outwards. -/
inductive Store.Chain (st : Store) : ScopeId → List ScopeId → Prop where
  | last {i s} : st.scope? i = some s → s.enclosing = none → Chain st i [i]
  | cons {i o is} : st.LiesIn i o → Chain st o is → Chain st i (i :: is)

/-- A machine in which all that scopes and functions refer to is there. -/
structure Machine.WellFormed (m : Machine) : Prop where
  current : m.scope < m.nextScope
  enclosing : ∀ i o, m.store.LiesIn i o → o < i
  outermost : ∀ i s, m.store.scope? i = some s → s.enclosing = none → i = globals
  closures : ∀ i s, m.store.scope? i = some s →
    ∀ b ∈ s.bindings, ∀ c ∈ b.2.closure?, c < m.nextScope

/-! ## Views that hide nothing -/

/-- Without hidden scopes, only those are missing that are not there. -/
theorem Value.fits_plain_iff {v : Value} {n : Nat} :
    v.Fits .plain n ↔ ∀ c ∈ v.closure?, c < n :=
  ⟨fun h c hc => (h c hc).1.lt, fun h c hc => ⟨⟨h c hc, id⟩, rfl⟩⟩

namespace Machine

variable {m : Machine}

/-- Well-formed machines are those that fit the view that shows everything. -/
theorem wellFormed_iff_fits : m.WellFormed ↔ m.Fits .plain := by
  constructor
  · rintro ⟨hcurrent, henclosing, houtermost, hclosures⟩
    refine ⟨⟨fun i s _ hs => ?_, fun _ _ => ⟨id, rfl⟩⟩, hcurrent, id⟩
    exact ⟨fun b hb => Value.fits_plain_iff.2 (hclosures i s hs b hb),
      fun o ho => ⟨henclosing i o ⟨s, hs, ho⟩, id⟩, houtermost i s hs, fun hne => (hne rfl).elim⟩
  · rintro ⟨⟨hscopes, -⟩, hcurrent⟩
    refine ⟨hcurrent.lt, ?_, fun i s hs => (hscopes i s id hs).outermost, ?_⟩
    · rintro i o ⟨s, hs, ho⟩
      exact ((hscopes i s id hs).enclosing o ho).1
    · exact fun i s hs b hb => Value.fits_plain_iff.1 ((hscopes i s id hs).values b hb)

/-! ## Chains -/

theorem lt_nextScope_of_scope? {i : ScopeId} {s : Scope} (h : m.store.scope? i = some s) :
    i < m.nextScope :=
  (Array.getElem?_eq_some_iff.1 h).1

namespace WellFormed

/-- The scopes around a scope are older, however far one goes outwards. -/
theorem lt_of_transGen (h : m.WellFormed) {i o : ScopeId}
    (hlies : Relation.TransGen m.store.LiesIn i o) : o < i := by
  induction hlies with
  | single hlies => exact h.enclosing _ _ hlies
  | tail _ hlies ih => exact Nat.lt_trans (h.enclosing _ _ hlies) ih

/-- The scopes of a chain are met from the youngest to the oldest. -/
theorem exists_chain (h : m.WellFormed) {i : ScopeId} (hi : i < m.nextScope) :
    ∃ is, m.store.Chain i is ∧ is.Pairwise (· > ·) ∧ (∀ j ∈ is, j ≤ i) ∧
      is.getLast? = some globals := by
  -- Links lead to older scopes, and so the chain gets there by recursion on the scope itself.
  induction i using Nat.strongRecOn with
  | ind i ih =>
    obtain ⟨s, hs⟩ := Store.scope?_of_lt hi
    cases ho : s.enclosing with
    | none =>
      obtain rfl := h.outermost i s hs ho
      exact ⟨[globals], .last hs ho, by simp, by simp, rfl⟩
    | some o =>
      have hlt := h.enclosing i o ⟨s, hs, ho⟩
      obtain ⟨is, hchain, hsorted, hle, hlast⟩ := ih o hlt (Nat.lt_trans hlt hi)
      refine ⟨i :: is, .cons ⟨s, hs, ho⟩ hchain, ?_, ?_, ?_⟩
      · exact .cons (fun j hj => Nat.lt_of_le_of_lt (hle j hj) hlt) hsorted
      · intro j hj
        obtain rfl | hj := List.mem_cons.1 hj
        · exact Nat.le_refl _
        · exact Nat.le_trans (hle j hj) (Nat.le_of_lt hlt)
      · rw [List.getLast?_cons, hlast]
        rfl

end WellFormed

end Machine

namespace Store.Chain

variable {m : Machine} {i : ScopeId} {is : List ScopeId}

/-- A search goes along the chain until it finds something. -/
theorem nearest?_eq {α : Type} (hm : m.WellFormed) (h : m.store.Chain i is)
    (find : ScopeId → Scope → Option α) :
    m.store.nearest? find i = is.findSome? fun j => (m.store.scope? j).bind (find j) := by
  induction h with
  | @last i s hs ho =>
    rw [nearest?, hs]
    simp only [ho, List.findSome?_cons, hs, Option.bind_some, List.findSome?_nil]
    cases find i s <;> rfl
  | @cons i o is hlies _ ih =>
    have hlt := hm.enclosing i o hlies
    obtain ⟨s, hs, ho⟩ := hlies
    rw [nearest?, hs]
    simp only [ho, List.findSome?_cons, hs, Option.bind_some]
    cases find i s with
    -- The search asks whether the link leads to an older scope, which is always so.
    | none => exact (if_pos hlt).trans ih
    | some a => rfl

/-- A name is looked up along the chain. -/
theorem lookup?_eq (hm : m.WellFormed) (h : m.store.Chain i is) (name : String) :
    m.store.lookup? i name = is.findSome? fun j => (m.store.scope? j).bind (·.get? name) :=
  h.nearest?_eq hm _

/-- So is the scope to which an assignment goes. -/
theorem binder?_eq (hm : m.WellFormed) (h : m.store.Chain i is) (name : String) :
    m.store.binder? i name = is.find? fun j => m.store.binds j name := by
  rw [← List.findSome?_guard]
  refine (h.nearest?_eq hm _).trans ?_
  congr 1
  funext j
  cases hs : m.store.scope? j <;> simp [Option.guard, Store.binds, hs]

end Store.Chain

end Treewalk
