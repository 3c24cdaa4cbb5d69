import Treewalk.Machine.Basic
import Treewalk.Proofs.Scopes

/-!
# Views of scopes

A view of a store hides some scopes and looks through others. A scope that is looked through binds
nothing, and a link to it counts as a link to the scope behind it. A store fits a view if nothing
that the view shows leads to a hidden scope, or to one that does not exist: no link to a scope
around it, and no function that is bound in it. With nothing hidden and nothing looked through this
says that the store is well formed.

What is found from a scope outwards is the same in the store and in the store as the view shows it
(`Store.Fits.nearest?_through`).
-/

namespace Treewalk

/-- The scope in which a function was declared. -/
def Value.closure? : Value → Option ScopeId
  | .callable (.function f) => some f.closure
  | _ => none

/-- A way to look at scopes: some are hidden, and through some one looks at a scope further out,
through which one does not look in turn. -/
structure View where
  hidden : ScopeId → Prop
  through : ScopeId → ScopeId
  through_through (i : ScopeId) : through (through i) = through i

namespace View

/-- Hides scopes, and looks through none. -/
def hide (hidden : ScopeId → Prop) : View := ⟨hidden, id, fun _ => rfl⟩

/-- Hides no scope, and looks through none. -/
def plain : View := hide fun _ => False

/-- The scope is one of the first `n` ones, and the view shows it. -/
structure Shows (V : View) (n : Nat) (i : ScopeId) : Prop where
  lt : i < n
  visible : ¬V.hidden i

theorem Shows.mono {V : View} {n k : Nat} {i : ScopeId} (h : V.Shows n i) (hle : n ≤ k) :
    V.Shows k i :=
  ⟨Nat.lt_of_lt_of_le h.lt hle, h.visible⟩

end View

/-- A function fits if the view shows its scope, and does not look through it. -/
def Value.Fits (V : View) (n : Nat) (v : Value) : Prop :=
  ∀ c ∈ v.closure?, V.Shows n c ∧ V.through c = c

/-- What is asked of the scope with the number `i`, if the view shows it. The only scope that lies
in no other one is the global scope. -/
structure Scope.Fits (V : View) (n : Nat) (i : ScopeId) (s : Scope) : Prop where
  values : ∀ b ∈ s.bindings, b.2.Fits V n
  enclosing : ∀ o ∈ s.enclosing, o < i ∧ ¬V.hidden o
  outermost : s.enclosing = none → i = Machine.globals
  transparent : V.through i ≠ i → s = ⟨[], some (V.through i)⟩

/-- What the view shows fits it, and it knows nothing of scopes that are not there yet. -/
structure Store.Fits (V : View) (st : Store) : Prop where
  scopes : ∀ i s, ¬V.hidden i → st.scope? i = some s → s.Fits V st.scopes.size i
  unopened : ∀ i, st.scopes.size ≤ i → ¬V.hidden i ∧ V.through i = i

/-! ## As the view shows it -/

/-- The scope lies in what is behind the scope around it. -/
def Scope.through (V : View) (s : Scope) : Scope :=
  { s with enclosing := s.enclosing.map V.through }

/-- The store with all links led past the scopes that are looked through. -/
def Store.through (V : View) (st : Store) : Store :=
  ⟨st.scopes.map (Scope.through V)⟩

variable {V : View} {n k : Nat}

/-! ## Values -/

namespace Value

theorem Fits.mono {v : Value} (h : v.Fits V n) (hle : n ≤ k) : v.Fits V k :=
  fun c hc => ⟨(h c hc).1.mono hle, (h c hc).2⟩

theorem fits_of_closure?_none {v : Value} (h : v.closure? = none) : v.Fits V n := by
  intro c hc
  rw [h] at hc
  cases hc

theorem fits_ofLiteral (value : Literal) : (ofLiteral value).Fits V n :=
  fits_of_closure?_none (by cases value <;> rfl)

end Value

theorem HostValue.value_fits (v : HostValue) : v.value.Fits V n := by
  cases v with
  | literal value => exact Value.fits_ofLiteral value
  | native f => exact Value.fits_of_closure?_none rfl

theorem HostValue.values_fit (vs : List HostValue) :
    ∀ v ∈ vs.map HostValue.value, v.Fits V n := by
  intro v hv
  obtain ⟨w, -, rfl⟩ := List.mem_map.1 hv
  exact w.value_fits

/-! ## Scopes -/

namespace Scope

variable {i : ScopeId} {s : Scope} {name : String} {v : Value}

theorem Fits.mono (h : s.Fits V n i) (hle : n ≤ k) : s.Fits V k i where
  values b hb := (h.values b hb).mono hle
  enclosing := h.enclosing
  outermost := h.outermost
  transparent := h.transparent

theorem Fits.get? (h : s.Fits V n i) (hget : s.get? name = some v) : v.Fits V n := by
  rw [Scope.get?, List.lookup_eq_some_iff] at hget
  obtain ⟨before, after, hbindings, -⟩ := hget
  exact h.values (name, v) (by simp [hbindings])

/-- Other values can be bound in a scope that is not looked through. -/
theorem Fits.rebind {s' : Scope} (h : s.Fits V n i) (hi : V.through i = i)
    (henclosing : s'.enclosing = s.enclosing) (hvalues : ∀ b ∈ s'.bindings, b.2.Fits V n) :
    s'.Fits V n i where
  values := hvalues
  enclosing := by rw [henclosing]; exact h.enclosing
  outermost := by rw [henclosing]; exact h.outermost
  transparent hne := absurd hi hne

/-- A name is declared only in a scope through which the view does not look. -/
theorem Fits.insert (h : s.Fits V n i) (hi : V.through i = i) (hv : v.Fits V n) :
    (s.insert name v).Fits V n i := by
  refine h.rebind hi rfl fun b hb => ?_
  obtain rfl | hb := List.mem_cons.1 hb
  · exact hv
  · exact h.values b hb

/-- A scope that binds nothing stays as it is when values are replaced. -/
theorem Fits.replace (h : s.Fits V n i) (hv : v.Fits V n) : (s.replace name v).Fits V n i := by
  by_cases hi : V.through i = i
  · refine h.rebind hi rfl fun b hb => ?_
    obtain ⟨b', hb', rfl⟩ := List.mem_map.1 hb
    split
    · exact hv
    · exact h.values b' hb'
  · obtain rfl := h.transparent hi
    exact h

theorem Fits.set (h : s.Fits V n i) (hi : V.through i = i) (hv : v.Fits V n) :
    (s.set name v).Fits V n i := by
  unfold Scope.set
  split
  · exact h.replace hv
  · exact h.insert hi hv

theorem Fits.clear (h : s.Fits V n i) (hi : V.through i = i) : s.clear.Fits V n i :=
  h.rebind hi rfl fun b hb => by cases hb

end Scope

/-! ## Stores -/

namespace Store

variable {st st' : Store} {i : ScopeId}

/-- A store is nothing but its scopes. -/
theorem ext_scope? (h : ∀ i, st.scope? i = st'.scope? i) : st = st' := by
  obtain ⟨scopes⟩ := st
  obtain ⟨scopes'⟩ := st'
  exact congrArg Store.mk (Array.ext_getElem? h)

@[simp] theorem size_modify (st : Store) (i : ScopeId) (f : Scope → Scope) :
    (st.modify i f).scopes.size = st.scopes.size :=
  Array.size_modify

@[simp] theorem size_openScope (st : Store) (enclosing : Option ScopeId) :
    (st.openScope enclosing).2.scopes.size = st.scopes.size + 1 :=
  Array.size_push _

theorem scope?_of_lt (h : i < st.scopes.size) : ∃ s, st.scope? i = some s :=
  ⟨_, Array.getElem?_eq_getElem h⟩

/-- Scope by scope, only the links differ. -/
@[simp] theorem scope?_through (V : View) (st : Store) (i : ScopeId) :
    (st.through V).scope? i = (st.scope? i).map (Scope.through V) :=
  Array.getElem?_map

@[simp] theorem size_through (V : View) (st : Store) :
    (st.through V).scopes.size = st.scopes.size :=
  Array.size_map

theorem through_openScope (V : View) (st : Store) (o : ScopeId) :
    (st.openScope (some o)).2.through V = ((st.through V).openScope (some (V.through o))).2 := by
  refine ext_scope? fun i => ?_
  rw [scope?_through, scope?_openScope, scope?_openScope, size_through, scope?_through]
  split <;> rfl

/-- A change of bindings that leaves links alone can be made before or behind the view. -/
theorem through_modify {f : Scope → Scope} (hf : ∀ s, (f s).through V = f (s.through V))
    (st : Store) (i : ScopeId) : (st.modify i f).through V = (st.through V).modify i f := by
  refine ext_scope? fun j => ?_
  rw [scope?_through, scope?_modify, scope?_modify, scope?_through]
  split
  · cases st.scope? j with
    | none => rfl
    | some s => exact congrArg some (hf s)
  · rfl

theorem through_insert (V : View) (st : Store) (i : ScopeId) (name : String) (v : Value) :
    (st.insert i name v).through V = (st.through V).insert i name v :=
  through_modify (f := fun s => s.insert name v) (fun _ => rfl) st i

theorem through_replace (V : View) (st : Store) (i : ScopeId) (name : String) (v : Value) :
    (st.replace i name v).through V = (st.through V).replace i name v :=
  through_modify (f := fun s => s.replace name v) (fun _ => rfl) st i

theorem binds_through (V : View) (st : Store) (i : ScopeId) (name : String) :
    (st.through V).binds i name = st.binds i name := by
  simp only [binds, scope?_through]
  cases st.scope? i <;> rfl

namespace Fits

/-- A new scope inside one that the view shows. -/
theorem openScope (h : st.Fits V) {o : ScopeId} (ho : V.Shows st.scopes.size o) :
    (st.openScope (some o)).2.Fits V := by
  -- The view says nothing about the number of the new scope yet.
  obtain ⟨hvisible, hthrough⟩ := h.unopened _ (Nat.le_refl _)
  refine ⟨fun i s hi hs => ?_, fun i hle => h.unopened i ?_⟩
  · rw [size_openScope]
    rw [scope?_openScope] at hs
    split at hs
    · subst i
      cases hs
      refine ⟨fun b hb => (by cases hb), fun o' ho' => ?_, fun hnone => (by cases hnone),
        fun hne => absurd hthrough hne⟩
      cases ho'
      exact ⟨ho.lt, ho.visible⟩
    · exact (h.scopes i s hi hs).mono (Nat.le_succ _)
  · rw [size_openScope] at hle
    omega

/-- A change of one scope that fits afterwards. -/
theorem modify (h : st.Fits V) {f : Scope → Scope}
    (hf : ∀ s : Scope, s.Fits V st.scopes.size i → (f s).Fits V st.scopes.size i) :
    (st.modify i f).Fits V := by
  refine ⟨fun j s hj hs => ?_, fun j hle => h.unopened j (by rwa [size_modify] at hle)⟩
  rw [size_modify]
  rw [scope?_modify] at hs
  split at hs
  · subst j
    obtain ⟨s', hs', rfl⟩ := Option.map_eq_some_iff.1 hs
    exact hf s' (h.scopes i s' hj hs')
  · exact h.scopes j s hj hs

/-- A scope that is looked through lies right in the scope behind it. -/
theorem of_ne (h : st.Fits V) (hi : ¬V.hidden i) (hne : V.through i ≠ i) :
    st.scope? i = some ⟨[], some (V.through i)⟩ := by
  have hlt : i < st.scopes.size := by
    refine Nat.lt_of_not_le fun hle => ?_
    exact hne (h.unopened i hle).2
  obtain ⟨s, hs⟩ := scope?_of_lt hlt
  rw [hs, (h.scopes i s hi hs).transparent hne]

/-- One looks outwards, and so at older scopes. -/
theorem through_le (h : st.Fits V) (hi : ¬V.hidden i) : V.through i ≤ i := by
  by_cases hne : V.through i = i
  · exact Nat.le_of_eq hne
  · have hs := h.of_ne hi hne
    exact Nat.le_of_lt ((h.scopes i _ hi hs).enclosing _ rfl).1

/-- Looking for something from a scope outwards, one finds the same in what the view shows, as long
as nothing is found in a scope that binds nothing. -/
theorem nearest?_through {α : Type} {find : ScopeId → Scope → Option α} (h : st.Fits V)
    (hfind : ∀ i s, find i (s.through V) = find i s)
    (hempty : ∀ i o, find i ⟨[], o⟩ = none) (hi : ¬V.hidden i) :
    (st.through V).nearest? find (V.through i) = st.nearest? find i := by
  induction i using Nat.strongRecOn with
  | ind i ih =>
    by_cases hne : V.through i = i
    · rw [hne, nearest?, nearest?.eq_def st, scope?_through]
      cases hs : st.scope? i with
      | none => rfl
      | some s =>
        simp only [Option.map_some, hfind]
        cases find i s with
        | some a => rfl
        | none =>
          cases ho : s.enclosing with
          | none => simp only [Scope.through, ho, Option.map_none]
          | some o =>
            obtain ⟨hlt, hvisible⟩ := (h.scopes i s hi hs).enclosing o ho
            have hlt' : V.through o < i := Nat.lt_of_le_of_lt (h.through_le hvisible) hlt
            simp only [Scope.through, ho, Option.map_some, hlt, hlt', if_true]
            exact ih o hlt hvisible
    · -- Nothing is found here, and so the search goes on behind it.
      have hs := h.of_ne hi hne
      obtain ⟨hlt, hvisible⟩ := (h.scopes i _ hi hs).enclosing _ rfl
      have hbehind := ih _ hlt hvisible
      rw [V.through_through] at hbehind
      rw [hbehind, nearest?.eq_def st find i, hs]
      simp only [hempty, hlt, if_true]

/-- A lookup finds the same value. -/
theorem lookup?_through (h : st.Fits V) (hi : ¬V.hidden i) (name : String) :
    (st.through V).lookup? (V.through i) name = st.lookup? i name :=
  h.nearest?_through (fun _ _ => rfl) (fun _ _ => rfl) hi

/-- An assignment finds the same scope. -/
theorem binder?_through (h : st.Fits V) (hi : ¬V.hidden i) (name : String) :
    (st.through V).binder? (V.through i) name = st.binder? i name :=
  h.nearest?_through (fun _ _ => rfl) (fun _ _ => rfl) hi

/-- No link leaves the scopes that the view shows. -/
theorem not_hidden_enclosing (h : st.Fits V) (i : ScopeId) (s : Scope) (hi : ¬V.hidden i)
    (hs : st.scope? i = some s) (o : ScopeId) (ho : s.enclosing = some o) : ¬V.hidden o :=
  ((h.scopes i s hi hs).enclosing o ho).2

/-- What is found from a scope that the view shows fits. -/
theorem lookup? (h : st.Fits V) (hi : ¬V.hidden i) {name : String} {v : Value}
    (hv : st.lookup? i name = some v) : v.Fits V st.scopes.size := by
  obtain ⟨j, s, hj, hs, hget⟩ := exists_of_nearest? h.not_hidden_enclosing hi hv
  exact (h.scopes j s hj hs).get? hget

/-- The scope found by an assignment is not hidden. -/
theorem binder? (h : st.Fits V) (hi : ¬V.hidden i) {name : String} {j : ScopeId}
    (hj : st.binder? i name = some j) : ¬V.hidden j := by
  obtain ⟨j', s, hj', -, hfind⟩ := exists_of_nearest? h.not_hidden_enclosing hi hj
  split at hfind
  · cases hfind
    exact hj'
  · cases hfind

end Fits

end Store

end Treewalk
