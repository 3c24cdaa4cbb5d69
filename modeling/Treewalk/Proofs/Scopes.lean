import Treewalk.Store

/-!
# Scopes after a change

What the operations on a store leave of its scopes. Opening a scope adds one and leaves all others
as they are; a change of bindings concerns one scope, and that scope lies where it lay.
-/

namespace Treewalk

namespace Scope

/-- A scope binds the names that stand in its list. -/
theorem binds_iff {s : Scope} {x : String} : s.binds x ↔ x ∈ s.bindings.map Prod.fst := by
  simp only [binds, get?, List.lookup_isSome_iff, beq_iff_eq, List.mem_map]
  constructor
  · rintro ⟨b, hmem, rfl⟩
    exact ⟨b, hmem, rfl⟩
  · rintro ⟨b, hmem, rfl⟩
    exact ⟨b, hmem, rfl⟩

theorem binds_insert {s : Scope} {name x : String} {v : Value} :
    (s.insert name v).binds x ↔ x = name ∨ s.binds x := by
  simp [binds_iff, insert]

/-- Only values are replaced, and never names. -/
theorem map_fst_replace (s : Scope) (name : String) (v : Value) :
    (s.replace name v).bindings.map Prod.fst = s.bindings.map Prod.fst := by
  simp only [replace, List.map_map]
  refine List.map_congr_left fun b _ => ?_
  simp only [Function.comp_apply]
  split <;> rfl

/-- An assignment neither adds nor removes a name. -/
theorem binds_replace {s : Scope} {name x : String} {v : Value} :
    (s.replace name v).binds x ↔ s.binds x := by
  rw [binds_iff, binds_iff, map_fst_replace]

theorem set_enclosing (s : Scope) (name : String) (v : Value) :
    (s.set name v).enclosing = s.enclosing := by
  unfold set
  split <;> rfl

end Scope

namespace Store

variable {st : Store} {i id : ScopeId}

theorem scope?_eq_none_of_le (h : st.scopes.size ≤ i) : st.scope? i = none :=
  Array.getElem?_eq_none h

theorem lt_size_of_scope? {s : Scope} (h : st.scope? i = some s) : i < st.scopes.size := by
  refine Nat.lt_of_not_le fun hle => ?_
  rw [scope?_eq_none_of_le hle] at h
  cases h

/-- Opening a scope adds one at the end, which is empty. -/
theorem scope?_openScope (st : Store) (enclosing : Option ScopeId) (i : ScopeId) :
    (st.openScope enclosing).2.scope? i =
      if i = st.scopes.size then some ⟨[], enclosing⟩ else st.scope? i :=
  Array.getElem?_push

/-- A scope that exists is not the one that is opened next. -/
theorem scope?_openScope_of_some {s : Scope} (h : st.scope? i = some s)
    (enclosing : Option ScopeId) : (st.openScope enclosing).2.scope? i = some s := by
  rw [scope?_openScope, if_neg (Nat.ne_of_lt (lt_size_of_scope? h)), h]

/-- A change of bindings concerns one scope. -/
theorem scope?_modify (st : Store) (id : ScopeId) (f : Scope → Scope) (i : ScopeId) :
    (st.modify id f).scope? i = if id = i then (st.scope? i).map f else st.scope? i :=
  Array.getElem?_modify

/-- What a search finds is in a scope to which links lead from where it starts, and so in one of any
set of scopes that no link leaves. -/
theorem exists_of_nearest? {α : Type} {find : ScopeId → Scope → Option α} {R : ScopeId → Prop}
    (hlinks : ∀ i s, R i → st.scope? i = some s → ∀ o, s.enclosing = some o → R o) (hid : R id)
    {a : α} (h : st.nearest? find id = some a) :
    ∃ i s, R i ∧ st.scope? i = some s ∧ find i s = some a := by
  induction id using Nat.strongRecOn with
  | ind id ih =>
    rw [nearest?] at h
    split at h
    · cases h
    · rename_i s hs
      split at h
      · rename_i hfind
        exact ⟨id, s, hid, hs, hfind.trans h⟩
      · cases h
      · rename_i o _ ho
        split at h
        · rename_i hlt
          exact ih o hlt (hlinks id s hid hs o ho) h
        · cases h

/-- What a name means is bound in some scope. -/
theorem exists_of_lookup? {name : String} {v : Value} (h : st.lookup? id name = some v) :
    ∃ i s, st.scope? i = some s ∧ s.get? name = some v := by
  obtain ⟨i, s, -, hs, hget⟩ := exists_of_nearest? (R := fun _ => True)
    (fun _ _ _ _ _ _ => trivial) trivial h
  exact ⟨i, s, hs, hget⟩

end Store

end Treewalk
