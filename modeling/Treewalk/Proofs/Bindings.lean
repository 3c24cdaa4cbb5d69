import Treewalk.Proofs.ScopeEffects
import Treewalk.Proofs.Session.Reachable
import Treewalk.Proofs.WellFormed

/-!
# What names mean

A store is a forest: scopes are opened by themselves or inside other ones, and many can lie in the
same one. A name means what the nearest scope binds it to, counted from the scope in which it is
looked up outwards. Both an assignment and a declaration bind one name in one scope, and what they
change is seen from exactly those scopes from which one comes to this scope before any other one
that binds the name (`Store.OnlyBinds.rebinds`).
-/

namespace Treewalk

/-! ## Bindings of a scope -/

namespace Scope

theorem lookup_cons_eq_ite (x y : String) (v : Value) (bs : List (String × Value)) :
    List.lookup x ((y, v) :: bs) = if x = y then some v else List.lookup x bs := by
  by_cases h : x = y
  · simp [h]
  · rw [List.lookup_cons, beq_false_of_ne h, if_neg h]

theorem get?_insert (s : Scope) (name x : String) (v : Value) :
    (s.insert name v).get? x = if x = name then some v else s.get? x :=
  lookup_cons_eq_ite x name v s.bindings

/-- Only what is bound is replaced. -/
theorem get?_replace (s : Scope) (name x : String) (v : Value) :
    (s.replace name v).get? x = (s.get? x).map fun w => if x = name then v else w := by
  obtain ⟨bindings, enclosing⟩ := s
  simp only [get?, replace]
  induction bindings with
  | nil => rfl
  | cons b bindings ih =>
    obtain ⟨y, w⟩ := b
    have hb : (if (y == name) = true then (y, v) else (y, w)) =
        (y, if y = name then v else w) := by
      simp only [beq_iff_eq]
      split <;> rfl
    rw [List.map_cons, hb, lookup_cons_eq_ite, lookup_cons_eq_ite, ih]
    split
    · subst x
      rfl
    · rfl

end Scope

namespace Store

/-! ## Forests of scopes -/

/-- The store comes about from the empty one: scopes are opened, by themselves or in scopes that are
there, and names are declared, provided, assigned to and removed in any order. -/
inductive Arises : Store → Prop where
  | empty : Arises .empty
  | root {st} : Arises st → Arises (st.openScope none).2
  | nested {st o} : Arises st → o < st.scopes.size → Arises (st.openScope (some o)).2
  | define {st st' id name v} : Arises st → st.define id name v = .ok st' → Arises st'
  | provide {st} (id : ScopeId) (name : String) (v : Value) : Arises st →
      Arises (st.provide id name v)
  | assign {st st' id name v} : Arises st → st.assign id name v = .ok st' → Arises st'
  | clear {st} (id : ScopeId) : Arises st → Arises (st.clear id)

/-- The value to which a scope itself binds a name. -/
def bound? (st : Store) (id : ScopeId) (name : String) : Option Value :=
  (st.scope? id).bind fun s => s.get? name

/-- The scope in which a scope lies. -/
def enclosing? (st : Store) (id : ScopeId) : Option ScopeId :=
  (st.scope? id).bind Scope.enclosing

/-- Scopes lie in older ones. -/
def Ordered (st : Store) : Prop :=
  ∀ i o, st.enclosing? i = some o → o < i

/-- Going outwards from `t`, one comes to `s` before any other scope that binds the name. -/
inductive Reaches (st : Store) (name : String) : ScopeId → ScopeId → Prop where
  | refl (s : ScopeId) : Reaches st name s s
  | outwards {t o s} : ¬st.binds t name → st.enclosing? t = some o → Reaches st name o s →
      Reaches st name t s

/-- The scope `b` is the first one from `t` outwards that binds the name. -/
def Nearest (st : Store) (name : String) (t b : ScopeId) : Prop :=
  st.Reaches name t b ∧ st.binds b name

/-- The second store differs from the first at most in this: the scope `s` binds the name to the
value. -/
structure OnlyBinds (st st' : Store) (s : ScopeId) (name : String) (v : Value) : Prop where
  enclosing (i : ScopeId) : st'.enclosing? i = st.enclosing? i
  bound (i : ScopeId) (x : String) :
    st'.bound? i x = if i = s ∧ x = name then some v else st.bound? i x

/-- In the second store the name means the value wherever one comes to `s` before any other scope
that binds the name. Elsewhere it means what it means in the first store, and so do all other names
everywhere. -/
structure Rebinds (st st' : Store) (s : ScopeId) (name : String) (v : Value) : Prop where
  seen (t : ScopeId) : st.Reaches name t s → st'.lookup? t name = some v
  unseen (t : ScopeId) (x : String) : ¬(x = name ∧ st.Reaches name t s) →
    st'.lookup? t x = st.lookup? t x

variable {st st' : Store} {i o s t b id : ScopeId} {name x : String} {v w : Value}

theorem binds_eq_isSome (st : Store) (id : ScopeId) (name : String) :
    st.binds id name = (st.bound? id name).isSome := by
  simp only [binds, bound?]
  cases st.scope? id <;> rfl

/-- A scope that does not bind a name has no value for it. -/
theorem bound?_eq_none_iff : st.bound? id name = none ↔ ¬st.binds id name := by
  simp [binds_eq_isSome]

/-! ## Links -/

/-- Scopes stay in the scopes in which they lie. -/
theorem enclosing?_modify {f : Scope → Scope} (hf : ∀ s, (f s).enclosing = s.enclosing)
    (st : Store) (id i : ScopeId) : (st.modify id f).enclosing? i = st.enclosing? i := by
  simp only [enclosing?, scope?_modify]
  split
  · cases st.scope? i with
    | none => rfl
    | some s => exact hf s
  · rfl

theorem Ordered.modify {f : Scope → Scope} (h : st.Ordered)
    (hf : ∀ s, (f s).enclosing = s.enclosing) (id : ScopeId) : (st.modify id f).Ordered := by
  intro i o ho
  rw [enclosing?_modify hf] at ho
  exact h i o ho

/-- The new scope is the newest, and lies in an older one if in any. -/
theorem Ordered.openScope (h : st.Ordered) {enclosing : Option ScopeId}
    (henclosing : ∀ o ∈ enclosing, o < st.scopes.size) : (st.openScope enclosing).2.Ordered := by
  intro i o ho
  simp only [enclosing?, scope?_openScope] at ho
  split at ho
  · subst i
    exact henclosing o ho
  · exact h i o ho

/-- A declaration succeeds if the scope itself does not bind the name. -/
theorem define_eq_ok_iff {token : Token} : st.define id token v = .ok st' ↔
    ¬st.binds id token.lexeme ∧ st' = st.insert id token.lexeme v := by
  simp only [define, checkFree]
  split <;> rename_i hbinds
  · simp [hbinds, Except.map]
  · simp only [Except.map, Except.ok.injEq, hbinds]
    exact ⟨fun h => ⟨by simp, h.symm⟩, fun h => h.2.symm⟩

/-- Otherwise the only error is that the name is taken. -/
theorem define_eq_error_iff {token : Token} {e : RuntimeError} : st.define id token v = .error e ↔
    e = .alreadyDefined token ∧ st.binds id token.lexeme := by
  simp only [define, checkFree]
  split <;> rename_i hbinds
  · simp [hbinds, Except.map, eq_comm]
  · simp [hbinds, Except.map]

/-- An assignment succeeds if some scope outwards binds the name, and changes that one. -/
theorem assign_eq_ok_iff {token : Token} : st.assign id token v = .ok st' ↔
    ∃ b, st.binder? id token.lexeme = some b ∧ st' = st.replace b token.lexeme v := by
  simp only [assign, binder]
  cases st.binder? id token.lexeme with
  | none => simp [Except.map]
  | some b => simp [Except.map, eq_comm]

/-- Otherwise the only error is that there is no such variable. -/
theorem assign_eq_error_iff {token : Token} {e : RuntimeError} : st.assign id token v = .error e ↔
    e = .undefinedVariable token ∧ st.binder? id token.lexeme = none := by
  simp only [assign, binder]
  cases st.binder? id token.lexeme with
  | none => simp [Except.map, eq_comm]
  | some b => simp [Except.map]

theorem get_eq_ok_iff {token : Token} :
    st.get id token = .ok v ↔ st.lookup? id token.lexeme = some v := by
  simp only [get]
  cases st.lookup? id token.lexeme <;> simp

theorem get_eq_error_iff {token : Token} {e : RuntimeError} : st.get id token = .error e ↔
    e = .undefinedVariable token ∧ st.lookup? id token.lexeme = none := by
  simp only [get]
  cases st.lookup? id token.lexeme <;> simp [eq_comm]

/-- Whatever is done with scopes, they lie in older ones. -/
theorem Arises.ordered (h : st.Arises) : st.Ordered := by
  induction h with
  | empty => exact fun i o ho => by cases ho
  | root _ ih => exact ih.openScope fun o ho => by cases ho
  | nested _ hlt ih => exact ih.openScope fun o ho => by cases ho; exact hlt
  | define _ hdefine ih =>
    obtain ⟨-, rfl⟩ := define_eq_ok_iff.1 hdefine
    refine ih.modify ?_ _
    exact fun _ => rfl
  | provide id name v _ ih => exact ih.modify (fun s => s.set_enclosing name v) id
  | assign _ hassign ih =>
    obtain ⟨b, -, rfl⟩ := assign_eq_ok_iff.1 hassign
    refine ih.modify ?_ b
    exact fun _ => rfl
  | clear id _ ih =>
    refine ih.modify ?_ id
    exact fun _ => rfl

/-! ## Searching outwards -/

/-- A search looks into the scope itself, and then goes on in the one in which it lies. -/
theorem Ordered.nearest?_eq {α : Type} (h : st.Ordered) (find : ScopeId → Scope → Option α)
    (t : ScopeId) : st.nearest? find t =
      ((st.scope? t).bind (find t)).or ((st.enclosing? t).bind (st.nearest? find)) := by
  rw [nearest?]
  cases hs : st.scope? t with
  | none => simp [enclosing?, hs]
  | some s =>
    have hlink : st.enclosing? t = s.enclosing := by simp [enclosing?, hs]
    simp only [hlink, Option.bind_some]
    cases ho : s.enclosing with
    | none => cases find t s <;> rfl
    | some o =>
      have hlt : o < t := h t o (hlink.trans ho)
      cases find t s with
      | none => exact if_pos hlt
      | some a => rfl

/-- A lookup asks the scope itself and then the one around it. -/
theorem Ordered.lookup?_eq (h : st.Ordered) (t : ScopeId) (name : String) :
    st.lookup? t name =
      (st.bound? t name).or ((st.enclosing? t).bind fun o => st.lookup? o name) :=
  h.nearest?_eq _ t

/-- If a search finds something just in the scopes that bind a name, then it finds what is in the
nearest one. -/
theorem Ordered.nearest?_eq_some_iff {α : Type} {find : ScopeId → Scope → Option α} {a : α}
    (h : st.Ordered) (hfind : ∀ i s, (find i s).isSome = s.binds name) :
    st.nearest? find t = some a ↔
      ∃ b, st.Nearest name t b ∧ (st.scope? b).bind (find b) = some a := by
  have hbinds : ∀ i, ((st.scope? i).bind (find i)).isSome = st.binds i name := by
    intro i
    simp only [binds]
    cases st.scope? i with
    | none => rfl
    | some s => exact hfind i s
  constructor
  · -- Links lead to older scopes, and so the search is followed by recursion on the scope.
    intro hnearest
    induction t using Nat.strongRecOn with
    | ind t ih =>
      rw [h.nearest?_eq, Option.or_eq_some_iff] at hnearest
      obtain hhere | ⟨hnone, houter⟩ := hnearest
      · exact ⟨t, ⟨.refl t, by rw [← hbinds, hhere]; rfl⟩, hhere⟩
      · obtain ⟨o, ho, houter⟩ := Option.bind_eq_some_iff.1 houter
        obtain ⟨b, ⟨hreaches, hb⟩, hfound⟩ := ih o (h t o ho) houter
        have hfree : ¬st.binds t name := by rw [← hbinds, hnone]; simp
        exact ⟨b, ⟨.outwards hfree ho hreaches, hb⟩, hfound⟩
  · rintro ⟨b, ⟨hreaches, -⟩, hfound⟩
    induction hreaches with
    | refl s => rw [h.nearest?_eq, hfound, Option.some_or]
    | @outwards t o _ hfree ho _ ih =>
      rw [← hbinds, Option.not_isSome_iff_eq_none] at hfree
      rw [h.nearest?_eq, hfree, Option.none_or, ho, Option.bind_some]
      exact ih hfound

/-- A lookup finds the value in the nearest scope that binds the name. -/
theorem Ordered.lookup?_eq_some_iff (h : st.Ordered) :
    st.lookup? t name = some v ↔ ∃ b, st.Nearest name t b ∧ st.bound? b name = some v :=
  h.nearest?_eq_some_iff fun _ _ => rfl

/-- An assignment goes to the nearest scope that binds the name. -/
theorem Ordered.binder?_eq_some_iff (h : st.Ordered) :
    st.binder? t name = some b ↔ st.Nearest name t b := by
  -- What the search reports in a scope is the scope itself, if the name is bound there.
  have hself : ∀ i, (st.scope? i).bind (fun s => if s.binds name then some i else none) = some b ↔
      i = b ∧ st.binds i name := by
    intro i
    cases hs : st.scope? i <;> simp [binds, hs, and_comm]
  have hfind : ∀ (i : ScopeId) (s : Scope),
      (if s.binds name then some i else none).isSome = s.binds name := by
    intro i s
    split <;> simp_all
  rw [binder?, h.nearest?_eq_some_iff hfind]
  constructor
  · rintro ⟨i, hi, hfound⟩
    obtain ⟨rfl, -⟩ := (hself i).1 hfound
    exact hi
  · exact fun hb => ⟨b, hb, (hself b).2 ⟨rfl, hb.2⟩⟩

/-- There is at most one nearest scope. -/
theorem Ordered.nearest_unique {b' : ScopeId} (h : st.Ordered) (hb : st.Nearest name t b)
    (hb' : st.Nearest name t b') : b = b' :=
  Option.some.inj ((h.binder?_eq_some_iff.2 hb).symm.trans (h.binder?_eq_some_iff.2 hb'))

/-- A lookup fails if no scope outwards binds the name. -/
theorem Ordered.lookup?_eq_none_iff (h : st.Ordered) :
    st.lookup? t name = none ↔ ¬∃ b, st.Nearest name t b := by
  constructor
  · rintro hnone ⟨b, hb⟩
    obtain ⟨v, hv⟩ := Option.isSome_iff_exists.1 ((binds_eq_isSome st b name).symm.trans hb.2)
    cases hnone.symm.trans (h.lookup?_eq_some_iff.2 ⟨b, hb, hv⟩)
  · intro hnone
    cases hlookup : st.lookup? t name with
    | none => rfl
    | some v =>
      obtain ⟨b, hb, -⟩ := h.lookup?_eq_some_iff.1 hlookup
      exact (hnone ⟨b, hb⟩).elim

/-- A name has a nearest binder where it means something. -/
theorem Ordered.binder?_eq_none_iff (h : st.Ordered) :
    st.binder? t name = none ↔ st.lookup? t name = none := by
  rw [h.lookup?_eq_none_iff, Option.eq_none_iff_forall_ne_some]
  simp only [ne_eq, h.binder?_eq_some_iff, not_exists]

/-! ## Changes of one scope -/

/-- A change of a scope that binds one name and leaves all others, as well as the link. -/
theorem OnlyBinds.of_modify {f : Scope → Scope} (hs : s < st.scopes.size)
    (henclosing : ∀ sc, (f sc).enclosing = sc.enclosing)
    (hget : ∀ sc, st.scope? s = some sc →
      ∀ x, (f sc).get? x = if x = name then some v else sc.get? x) :
    st.OnlyBinds (st.modify s f) s name v where
  enclosing := enclosing?_modify henclosing st s
  bound i x := by
    obtain ⟨sc, hsc⟩ := scope?_of_lt hs
    simp only [bound?, scope?_modify]
    by_cases hi : i = s
    · subst i
      simp [hsc, hget sc hsc]
    · simp [hi, Ne.symm hi]

theorem insert_onlyBinds (hs : s < st.scopes.size) (name : String) (v : Value) :
    st.OnlyBinds (st.insert s name v) s name v :=
  .of_modify hs (fun _ => rfl) fun sc _ x => sc.get?_insert name x v

/-- An assignment to a name that is bound changes its value. -/
theorem replace_onlyBinds (h : st.binds s name) (v : Value) :
    st.OnlyBinds (st.replace s name v) s name v := by
  obtain ⟨sc, hsc, hbinds⟩ := (Option.any_eq_true _ _).1 h
  refine .of_modify (lt_size_of_scope? hsc) (fun _ => rfl) fun sc' hsc' x => ?_
  obtain rfl := Option.some.inj (hsc.symm.trans hsc')
  -- Replacing adds no name, so that it matters that this one is bound already.
  obtain ⟨w, hw⟩ := Option.isSome_iff_exists.1 hbinds
  rw [Scope.get?_replace]
  split
  · subst x
    rw [hw, Option.map_some]
  · rw [Option.map_id']

/-- A change of one binding is seen from where one comes to it before any other binding of the
name. -/
theorem OnlyBinds.rebinds (h : st.OnlyBinds st' s name v) (hst : st.Ordered) :
    st.Rebinds st' s name v := by
  have hst' : st'.Ordered := fun i o ho => hst i o ((h.enclosing i).symm.trans ho)
  have hself : st'.lookup? s name = some v := by
    rw [hst'.lookup?_eq, h.bound, if_pos ⟨rfl, rfl⟩, Option.some_or]
  constructor
  · intro t hreaches
    induction hreaches with
    | refl => exact hself
    | @outwards t o s hfree ho _ ih =>
      -- The scope itself may lie on the way outwards from a scope that does not bind the name.
      by_cases hts : t = s
      · rw [hts]
        exact hself
      · rw [hst'.lookup?_eq, h.bound, if_neg fun hts' => hts hts'.1, bound?_eq_none_iff.2 hfree,
          Option.none_or, h.enclosing, ho]
        exact ih h hself
  · intro t x hnot
    induction t using Nat.strongRecOn with
    | ind t ih =>
      -- The scope that is asked is not the one that was changed, or not for this name.
      have hhere : ¬(t = s ∧ x = name) := by
        rintro ⟨rfl, rfl⟩
        exact hnot ⟨rfl, .refl t⟩
      rw [hst'.lookup?_eq, hst.lookup?_eq, h.bound, if_neg hhere, h.enclosing]
      cases hbound : st.bound? t x with
      | some w => rfl
      | none =>
        cases ho : st.enclosing? t with
        | none => rfl
        | some o =>
          refine ih o (hst t o ho) fun houter => hnot ⟨houter.1, ?_⟩
          exact .outwards (bound?_eq_none_iff.1 (houter.1 ▸ hbound)) ho houter.2

end Store

/-! ## Failures -/

/-- What gets, declares or assigns a name leaves the machine as it is if it fails. -/
theorem Run.eq_of_failed {name : Token} {v : Value} {s : ScopeId} {e : RuntimeError}
    {m after : Machine} (h : get name m = .failed e after ∨ define s name v m = .failed e after ∨
      assign name v m = .failed e after) : after = m := by
  simp only [get, define, assign] at h
  obtain h | h | h := h
  all_goals
    split at h <;> cases h
    rfl

/-- A declaration or an assignment of the host that fails leaves the machine as it was, log
included. -/
theorem Session.eq_of_failed {name : Token} {value : HostValue} {fuel : Nat} {e : RuntimeError}
    {m after : Machine} (h : (Step.define name value).perform fuel m = some (.failed e, after) ∨
      (Step.assign name value).perform fuel m = some (.failed e, after)) : after = m := by
  obtain h | h := h
  · rw [perform_define] at h
    obtain ⟨_, -, h⟩ | ⟨_, ho, -⟩ := Outcome.cases_of_answered h
    · cases h
    · exact Run.eq_of_failed (.inr (.inl ho))
  · simp only [Step.perform, Option.some.injEq] at h
    cases hassign : m.store.assign Machine.globals name value.value with
    | ok st =>
      rw [hassign] at h
      cases h
    | error e' =>
      rw [hassign] at h
      cases h
      rfl

/-- Names mean what the nearest scopes bind them to. In every store that comes about by operations
on scopes, for every scope `s` of it, every name and every value:

* a lookup from `s` finds the value in the first scope outwards that binds the name. There is at
  most one such scope, and to get the name fails just when there is none;
* an assignment from `s` succeeds just when a lookup does. It changes the binding of the name in
  that first scope only, and so the name has the new value from where this scope is the nearest one
  that binds it. All other lookups find what they found, and no scope gains or loses a name;
* a declaration in `s` succeeds just when `s` itself does not bind the name. It adds the binding to
  `s` only, and so the name has the new value from where one comes to `s` before any other scope
  that binds it. All other lookups find what they found;
* what fails leaves all scopes of the machine as they are. -/
theorem names_mean_nearest_bindings {st : Store} (h : st.Arises) {s : ScopeId}
    (hs : s < st.scopes.size) (name : Token) (v : Value) :
    ((∀ w, st.lookup? s name.lexeme = some w ↔
        ∃ b, st.Nearest name.lexeme s b ∧ st.bound? b name.lexeme = some w) ∧
      (∀ b b', st.Nearest name.lexeme s b → st.Nearest name.lexeme s b' → b = b') ∧
      (∀ w, st.get s name = .ok w ↔ st.lookup? s name.lexeme = some w) ∧
      ∀ e, st.get s name = .error e ↔
        e = .undefinedVariable name ∧ ¬∃ b, st.Nearest name.lexeme s b) ∧
    ((∀ e, st.assign s name v = .error e ↔
        e = .undefinedVariable name ∧ st.lookup? s name.lexeme = none) ∧
      ∀ w, st.lookup? s name.lexeme = some w → ∃ b st', st.assign s name v = .ok st' ∧
        st.Nearest name.lexeme s b ∧ st.OnlyBinds st' b name.lexeme v ∧
        st.Rebinds st' b name.lexeme v ∧ ∀ i x, st'.binds i x = st.binds i x) ∧
    ((∀ e, st.define s name v = .error e ↔ e = .alreadyDefined name ∧ st.binds s name.lexeme) ∧
      (¬st.binds s name.lexeme → ∃ st', st.define s name v = .ok st' ∧
        st.OnlyBinds st' s name.lexeme v ∧ st.Rebinds st' s name.lexeme v)) ∧
    (∀ m e after, Run.get name m = .failed e after ∨ Run.define s name v m = .failed e after ∨
      Run.assign name v m = .failed e after → after = m) ∧
    ∀ fuel value m e after,
      (Session.Step.define name value).perform fuel m = some (.failed e, after) ∨
      (Session.Step.assign name value).perform fuel m = some (.failed e, after) → after = m := by
  have hordered := h.ordered
  refine ⟨⟨fun w => hordered.lookup?_eq_some_iff, fun b b' => hordered.nearest_unique,
    fun w => Store.get_eq_ok_iff, fun e => ?_⟩, ⟨fun e => ?_, fun w hw => ?_⟩,
    ⟨fun e => Store.define_eq_error_iff, fun hfree => ?_⟩,
    fun m e after => Run.eq_of_failed, fun fuel value m e after => Session.eq_of_failed⟩
  · rw [Store.get_eq_error_iff, hordered.lookup?_eq_none_iff]
  · rw [Store.assign_eq_error_iff, hordered.binder?_eq_none_iff]
  · obtain ⟨b, hb, -⟩ := hordered.lookup?_eq_some_iff.1 hw
    -- The nearest scope binds the name, and so the assignment changes its value there.
    have honly := Store.replace_onlyBinds hb.2 v
    exact ⟨b, _, Store.assign_eq_ok_iff.2 ⟨b, hordered.binder?_eq_some_iff.2 hb, rfl⟩, hb, honly,
      honly.rebinds hordered, fun i x => Store.binds_replace st b i name.lexeme x v⟩
  · have honly := Store.insert_onlyBinds hs name.lexeme v
    exact ⟨_, Store.define_eq_ok_iff.2 ⟨hfree, rfl⟩, honly, honly.rebinds hordered⟩

/-- Two scopes lie side by side in a scope that binds `x`. One of them binds `x` too, and the other
one holds a third scope. An assignment from the innermost scope is seen from there and from all
scopes around it, but not from the scope that binds `x` itself. -/
theorem names_mean_nearest_bindings_of_siblings :
    let x : Token := ⟨.identifier, "x", none, 1⟩
    let st : Store := ⟨#[⟨[("x", .null)], none⟩, ⟨[], some 0⟩, ⟨[("x", .bool true)], some 0⟩,
      ⟨[], some 1⟩]⟩
    st.Arises ∧ 3 < st.scopes.size ∧ ∃ st', st.assign 3 x (.bool false) = .ok st' ∧
      st'.lookup? 3 "x" = some (.bool false) ∧ st'.lookup? 1 "x" = some (.bool false) ∧
      st'.lookup? 0 "x" = some (.bool false) ∧ st'.lookup? 2 "x" = st.lookup? 2 "x" := by
  intro x st
  have harises : st.Arises := by
    have hroot : (Store.mk #[⟨[("x", .null)], none⟩]).Arises :=
      .provide 0 "x" .null (.root .empty)
    have hsiblings : (Store.mk #[⟨[("x", .null)], none⟩, ⟨[], some 0⟩, ⟨[], some 0⟩]).Arises :=
      .nested (o := 0) (.nested (o := 0) hroot (by decide)) (by decide)
    exact .nested (o := 1) (.provide 2 "x" (.bool true) hsiblings) (by decide)
  have hreaches : st.Reaches "x" 1 0 := .outwards (by decide) rfl (.refl 0)
  have hreaches' : st.Reaches "x" 3 0 := .outwards (by decide) rfl hreaches
  have hnearest : st.Nearest "x" 3 0 := ⟨hreaches', by decide⟩
  obtain ⟨⟨hlookup, hunique, -, -⟩, ⟨-, hassign⟩, -⟩ :=
    names_mean_nearest_bindings harises (s := 3) (by decide) x (.bool false)
  obtain ⟨b, st', hok, hb, -, hrebinds, -⟩ := hassign .null ((hlookup .null).2 ⟨0, hnearest, rfl⟩)
  obtain rfl := hunique b 0 hb hnearest
  refine ⟨harises, by decide, st', hok, hrebinds.seen 3 hreaches', hrebinds.seen 1 hreaches,
    hrebinds.seen 0 (.refl 0), hrebinds.unseen 2 "x" ?_⟩
  rintro ⟨-, hreaches⟩
  cases hreaches with
  | outwards hfree => exact hfree (by decide)

end Treewalk
