import Mathlib.Order.Defs.PartialOrder
import Treewalk.Proofs.Likeness.Tree
import Treewalk.Proofs.Scopes

/-!
# Stores that are alike

Two stores can hold the same under different numbers, and one of them can hold scopes that nothing
in use refers to. A `Pairing` says which scopes of the two correspond. Stores are alike under a
pairing if scopes that correspond bind the same names, to values that are alike, and lie in scopes
that correspond. Nothing is said about scopes that are in no pair.
-/

namespace Treewalk

/-- Scopes of two stores that correspond, one to one. -/
structure Pairing where
  Pairs : ScopeId → ScopeId → Prop
  oneToOne {i i' j j' : ScopeId} : Pairs i i' → Pairs j j' → (i = j ↔ i' = j')

namespace Pairing

/-- The second pairing has all the pairs of the first. -/
instance : Preorder Pairing where
  le ρ σ := ∀ i i', ρ.Pairs i i' → σ.Pairs i i'
  le_refl _ _ _ h := h
  le_trans _ _ _ h h' i i' hpair := h' i i' (h i i' hpair)

/-- The pairing with one more pair, of scopes that are in no pair yet. -/
def add (ρ : Pairing) (n n' : ScopeId) (h : ∀ i i', ρ.Pairs i i' → i ≠ n ∧ i' ≠ n') : Pairing where
  Pairs i i' := ρ.Pairs i i' ∨ i = n ∧ i' = n'
  oneToOne := by
    rintro i i' j j' (hi | ⟨rfl, rfl⟩) (hj | ⟨rfl, rfl⟩)
    · exact ρ.oneToOne hi hj
    · exact iff_of_false (h i i' hi).1 (h i i' hi).2
    · exact iff_of_false (h j j' hj).1.symm (h j j' hj).2.symm
    · exact iff_of_true rfl rfl

theorem le_add {ρ : Pairing} {n n' : ScopeId} (h : ∀ i i', ρ.Pairs i i' → i ≠ n ∧ i' ≠ n') :
    ρ ≤ ρ.add n n' h :=
  fun _ _ => .inl

end Pairing

/-! ## Related results -/

/-- Both are results, and related by `R`, or both are errors, and related by `E`. -/
inductive ResultRel {ε ε' α β : Type} (E : ε → ε' → Prop) (R : α → β → Prop) :
    Except ε α → Except ε' β → Prop where
  | ok {a b} : R a b → ResultRel E R (.ok a) (.ok b)
  | error {e e'} : E e e' → ResultRel E R (.error e) (.error e')

/-- Related results, taken apart. -/
theorem resultRel_cases {ε ε' α β : Type} {E : ε → ε' → Prop} {R : α → β → Prop}
    {x : Except ε α} {x' : Except ε' β} (h : ResultRel E R x x') :
    (∃ a b, x = .ok a ∧ x' = .ok b ∧ R a b) ∨ ∃ e e', x = .error e ∧ x' = .error e' ∧ E e e' := by
  cases h with
  | ok h => exact .inl ⟨_, _, rfl, rfl, h⟩
  | error h => exact .inr ⟨_, _, rfl, rfl, h⟩

theorem optionRel_cases {α β : Type} {R : α → β → Prop} {o : Option α} {o' : Option β}
    (h : Option.Rel R o o') :
    o = none ∧ o' = none ∨ ∃ a b, o = some a ∧ o' = some b ∧ R a b := by
  cases h with
  | none => exact .inl ⟨rfl, rfl⟩
  | some h => exact .inr ⟨_, _, rfl, rfl, h⟩

variable {L : Likeness} {ρ σ : Pairing}

/-! ## Values -/

/-- Functions are alike if their declarations are and the scopes of the declarations correspond. -/
inductive Callable.Like (L : Likeness) (ρ : Pairing) : Callable → Callable → Prop where
  | native (f : Native) : Like L ρ (.native f) (.native f)
  | function {f f' : Function} : L.Like f.name f'.name → List.Forall₂ L.Like f.params f'.params →
      List.Forall₂ (Stmt.Like L) f.body f'.body → ρ.Pairs f.closure f'.closure →
      Like L ρ (.function f) (.function f')

inductive Value.Like (L : Likeness) (ρ : Pairing) : Value → Value → Prop where
  | null : Like L ρ .null .null
  | bool (b : Bool) : Like L ρ (.bool b) (.bool b)
  | number (x : Float) : Like L ρ (.number x) (.number x)
  | string (s : String) : Like L ρ (.string s) (.string s)
  | callable {c c'} : c.Like L ρ c' → Like L ρ (.callable c) (.callable c')

/-- More pairs of scopes do not make functions differ. -/
theorem Callable.Like.mono {c c' : Callable} (h : c.Like L ρ c') (hle : ρ ≤ σ) : c.Like L σ c' := by
  cases h with
  | native f => exact .native f
  | function hname hparams hbody hclosure =>
    exact .function hname hparams hbody (hle _ _ hclosure)

theorem Callable.Like.arity_eq {c c' : Callable} (h : c.Like L ρ c') : c.arity = c'.arity := by
  cases h with
  | native f => rfl
  | function _ hparams _ _ => exact hparams.length_eq

/-- The text of a function is made of its name. -/
theorem Callable.Like.text_eq {c c' : Callable} (h : c.Like L ρ c') : c.text = c'.text := by
  cases h with
  | native f => rfl
  | function hname _ _ _ => simp only [text, L.lexeme hname]

theorem Callable.Like.debugText_eq {c c' : Callable} (h : c.Like L ρ c') :
    c.debugText = c'.debugText := by
  cases h with
  | native f => rfl
  | @function f f' hname _ _ _ =>
    exact congrArg (fun lexeme => s!"Function(Function({lexeme}))") (L.lexeme hname)

/-- Pairs are one to one, so that equal functions stay equal and different ones different. -/
theorem Callable.Like.same_eq {c c' d d' : Callable} (hc : c.Like L ρ c') (hd : d.Like L ρ d') :
    c.same d = c'.same d' := by
  cases hc with
  | native f => cases hd <;> rfl
  | function hname _ _ hclosure =>
    cases hd with
    | native f => rfl
    | function hname' _ _ hclosure' =>
      simp only [same, L.lexeme hname, L.lexeme hname', ρ.oneToOne hclosure hclosure']

namespace Value.Like

variable {v v' w w' : Value}

/-- More pairs of scopes do not make values differ. -/
theorem mono (h : v.Like L ρ v') (hle : ρ ≤ σ) : v.Like L σ v' := by
  cases h with
  | callable h => exact .callable (h.mono hle)
  | null => exact .null
  | bool b => exact .bool b
  | number x => exact .number x
  | string s => exact .string s

theorem ofLiteral (value : Literal) : (Value.ofLiteral value).Like L ρ (.ofLiteral value) := by
  cases value with
  | null => exact .null
  | bool b => exact .bool b
  | number x => exact .number x
  | string s => exact .string s

theorem truthy_eq (h : v.Like L ρ v') : v.truthy = v'.truthy := by
  cases h <;> rfl

theorem number?_eq (h : v.Like L ρ v') : v.number? = v'.number? := by
  cases h <;> rfl

theorem text_eq (h : v.Like L ρ v') : v.text = v'.text := by
  cases h with
  | callable h => exact h.text_eq
  | _ => rfl

/-- Equality compares functions by their names and scopes, both of which correspond. -/
theorem same_eq (h : v.Like L ρ v') (h' : w.Like L ρ w') : v.same w = v'.same w' := by
  cases h with
  | callable hc =>
    cases h' with
    | callable hd => exact hc.same_eq hd
    | _ => rfl
  | _ => cases h' <;> rfl

/-- Values that are alike are both callable or both are not. -/
theorem callable? (h : v.Like L ρ v') :
    Option.Rel (Callable.Like L ρ) v.callable? v'.callable? := by
  cases h with
  | callable h => exact .some h
  | _ => exact .none

end Value.Like

theorem HostValue.value_like (v : HostValue) : v.value.Like L ρ v.value := by
  cases v with
  | literal value => exact .ofLiteral value
  | native f => exact .callable (.native f)

/-! ## Scopes -/

/-- Scopes with these numbers are alike: the same names are bound to values that are alike, and the
scopes around them correspond. As in every store, these are older. -/
structure Scope.Like (L : Likeness) (ρ : Pairing) (i i' : ScopeId) (s s' : Scope) : Prop where
  bindings : List.Forall₂ (fun b b' => b.1 = b'.1 ∧ b.2.Like L ρ b'.2) s.bindings s'.bindings
  enclosing : Option.Rel (fun o o' => ρ.Pairs o o' ∧ o < i ∧ o' < i') s.enclosing s'.enclosing

namespace Scope

variable {i i' : ScopeId} {s s' : Scope} {v v' : Value}

theorem Like.mono (h : s.Like L ρ i i' s') (hle : ρ ≤ σ) : s.Like L σ i i' s' where
  bindings := h.bindings.imp fun _ _ hb => ⟨hb.1, hb.2.mono hle⟩
  enclosing := by
    obtain ⟨ho, ho'⟩ | ⟨o, o', ho, ho', hpair, hlt⟩ := optionRel_cases h.enclosing
    · rw [ho, ho']
      exact .none
    · rw [ho, ho']
      exact .some ⟨hle o o' hpair, hlt⟩

/-- A name is bound to values that are alike or not at all. The bindings stand in the same order. -/
theorem Like.get? (h : s.Like L ρ i i' s') (name : String) :
    Option.Rel (Value.Like L ρ) (s.get? name) (s'.get? name) := by
  obtain ⟨bindings, enclosing⟩ := s
  obtain ⟨bindings', enclosing'⟩ := s'
  have hbindings : List.Forall₂ _ bindings bindings' := h.bindings
  simp only [Scope.get?]
  clear h
  induction hbindings with
  | nil => exact .none
  | @cons b b' _ _ hb _ ih =>
    obtain ⟨x, v⟩ := b
    obtain ⟨x', v'⟩ := b'
    obtain ⟨rfl, hv⟩ := hb
    simp only [List.lookup_cons]
    split
    · exact .some hv
    · exact ih

/-- Whether a name is bound is the same on both sides. -/
theorem Like.binds_eq (h : s.Like L ρ i i' s') (name : String) : s.binds name = s'.binds name := by
  obtain ⟨hget, hget'⟩ | ⟨v, v', hget, hget', -⟩ := optionRel_cases (h.get? name) <;>
    simp only [binds, hget, hget', Option.isSome]

theorem Like.size_eq (h : s.Like L ρ i i' s') : s.size = s'.size :=
  h.bindings.length_eq

theorem Like.insert (h : s.Like L ρ i i' s') (name : String) (hv : v.Like L ρ v') :
    (s.insert name v).Like L ρ i i' (s'.insert name v') :=
  ⟨.cons ⟨rfl, hv⟩ h.bindings, h.enclosing⟩

/-- Replacing a value keeps scopes alike, whether the name is bound or not. -/
theorem Like.replace (h : s.Like L ρ i i' s') (name : String) (hv : v.Like L ρ v') :
    (s.replace name v).Like L ρ i i' (s'.replace name v') := by
  refine ⟨?_, h.enclosing⟩
  refine List.rel_map (fun b b' hb => ?_) h.bindings
  simp only [hb.1]
  split
  · exact ⟨rfl, hv⟩
  · exact hb

theorem Like.set (h : s.Like L ρ i i' s') (name : String) (hv : v.Like L ρ v') :
    (s.set name v).Like L ρ i i' (s'.set name v') := by
  unfold Scope.set
  rw [h.binds_eq]
  split
  · exact h.replace name hv
  · exact h.insert name hv

theorem Like.clear (h : s.Like L ρ i i' s') : s.clear.Like L ρ i i' s'.clear :=
  ⟨.nil, h.enclosing⟩

end Scope

/-! ## Stores -/

/-- Scopes that correspond exist and are alike. -/
def Store.Like (L : Likeness) (ρ : Pairing) (st st' : Store) : Prop :=
  ∀ i i', ρ.Pairs i i' →
    ∃ s s', st.scope? i = some s ∧ st'.scope? i' = some s' ∧ s.Like L ρ i i' s'

namespace Store

variable {st st' : Store} {i i' : ScopeId} {t u : Token} {v v' : Value}

/-- What is found from corresponding scopes outwards is related if what is found in each of them
is. -/
theorem Like.nearest? {α β : Type} {R : α → β → Prop} {find : ScopeId → Scope → Option α}
    {find' : ScopeId → Scope → Option β} (h : st.Like L ρ st')
    (hfind : ∀ i i' s s', ρ.Pairs i i' → s.Like L ρ i i' s' →
      Option.Rel R (find i s) (find' i' s'))
    (hpair : ρ.Pairs i i') : Option.Rel R (st.nearest? find i) (st'.nearest? find' i') := by
  induction i using Nat.strongRecOn generalizing i' with
  | ind i ih =>
    obtain ⟨s, s', hs, hs', hlike⟩ := h i i' hpair
    rw [Store.nearest?, Store.nearest?, hs, hs']
    obtain ⟨hfound, hfound'⟩ | ⟨a, b, hfound, hfound', hab⟩ :=
      optionRel_cases (hfind i i' s s' hpair hlike)
    · obtain ⟨ho, ho'⟩ | ⟨o, o', ho, ho', hpair', hlt, hlt'⟩ := optionRel_cases hlike.enclosing
      · simp only [hfound, hfound', ho, ho']
        exact .none
      · simp only [hfound, hfound', ho, ho', hlt, hlt', if_true]
        exact ih o hlt hpair'
    · simp only [hfound, hfound']
      exact .some hab

/-- Looking up a name goes through scopes that correspond. -/
theorem Like.lookup? (h : st.Like L ρ st') (hpair : ρ.Pairs i i') (name : String) :
    Option.Rel (Value.Like L ρ) (st.lookup? i name) (st'.lookup? i' name) :=
  h.nearest? (fun _ _ _ _ _ hs => hs.get? name) hpair

/-- A name that is not found is an error at tokens that are alike. -/
theorem Like.get (h : st.Like L ρ st') (hpair : ρ.Pairs i i') (ht : L.Like t u) :
    ResultRel (RuntimeError.Like L) (Value.Like L ρ) (st.get i t) (st'.get i' u) := by
  rw [Store.get, Store.get, L.lexeme ht]
  obtain ⟨hfound, hfound'⟩ | ⟨v, v', hfound, hfound', hv⟩ :=
    optionRel_cases (h.lookup? hpair u.lexeme)
  · rw [hfound, hfound']
    exact .error (.undefinedVariable ht)
  · rw [hfound, hfound']
    exact .ok hv

/-- The nearest scopes that bind a name correspond. -/
theorem Like.binder (h : st.Like L ρ st') (hpair : ρ.Pairs i i') (ht : L.Like t u) :
    ResultRel (RuntimeError.Like L) ρ.Pairs (st.binder i t) (st'.binder i' u) := by
  have hfound : Option.Rel ρ.Pairs (st.binder? i u.lexeme) (st'.binder? i' u.lexeme) := by
    refine h.nearest? (fun j j' s s' hpair hs => ?_) hpair
    rw [hs.binds_eq]
    split
    · exact .some hpair
    · exact .none
  rw [Store.binder, Store.binder, L.lexeme ht]
  obtain ⟨hfound, hfound'⟩ | ⟨j, j', hfound, hfound', hpair'⟩ := optionRel_cases hfound
  · rw [hfound, hfound']
    exact .error (.undefinedVariable ht)
  · rw [hfound, hfound']
    exact .ok hpair'

/-- A name is taken in both scopes or in none. -/
theorem Like.checkFree (h : st.Like L ρ st') (hpair : ρ.Pairs i i') (ht : L.Like t u) :
    ResultRel (RuntimeError.Like L) (fun _ _ => True) (st.checkFree i t) (st'.checkFree i' u) := by
  obtain ⟨s, s', hs, hs', hlike⟩ := h i i' hpair
  simp only [Store.checkFree, binds, hs, hs', Option.any_some, L.lexeme ht, hlike.binds_eq]
  split
  · exact .error (.alreadyDefined ht)
  · exact .ok trivial

theorem Like.size_eq (h : st.Like L ρ st') (hpair : ρ.Pairs i i') : st.size i = st'.size i' := by
  obtain ⟨s, s', hs, hs', hlike⟩ := h i i' hpair
  simp only [size, hs, hs']
  exact hlike.size_eq

/-- The same change is made to corresponding scopes. No other scopes that correspond change. -/
theorem Like.modify {f f' : Scope → Scope} (h : st.Like L ρ st') (hpair : ρ.Pairs i i')
    (hf : ∀ s s', s.Like L ρ i i' s' → (f s).Like L ρ i i' (f' s')) :
    (st.modify i f).Like L ρ (st'.modify i' f') := by
  intro j j' hpair'
  obtain ⟨s, s', hs, hs', hlike⟩ := h j j' hpair'
  rw [scope?_modify, scope?_modify, hs, hs']
  by_cases hij : i = j
  · obtain rfl := hij
    obtain rfl := (ρ.oneToOne hpair hpair').1 rfl
    exact ⟨f s, f' s', by simp, by simp, hf s s' hlike⟩
  · have hij' : i' ≠ j' := fun heq => hij ((ρ.oneToOne hpair hpair').2 heq)
    exact ⟨s, s', by simp [hij], by simp [hij'], hlike⟩

theorem Like.insert (h : st.Like L ρ st') (hpair : ρ.Pairs i i') (name : String)
    (hv : v.Like L ρ v') : (st.insert i name v).Like L ρ (st'.insert i' name v') :=
  h.modify hpair fun _ _ hs => hs.insert name hv

theorem Like.replace (h : st.Like L ρ st') (hpair : ρ.Pairs i i') (name : String)
    (hv : v.Like L ρ v') : (st.replace i name v).Like L ρ (st'.replace i' name v') :=
  h.modify hpair fun _ _ hs => hs.replace name hv

theorem Like.provide (h : st.Like L ρ st') (hpair : ρ.Pairs i i') (name : String)
    (hv : v.Like L ρ v') : (st.provide i name v).Like L ρ (st'.provide i' name v') :=
  h.modify hpair fun _ _ hs => hs.set name hv

theorem Like.clear (h : st.Like L ρ st') (hpair : ρ.Pairs i i') :
    (st.clear i).Like L ρ (st'.clear i') :=
  h.modify hpair fun _ _ hs => hs.clear

/-- Scopes that correspond exist, and so those that are opened next are in no pair. -/
theorem Like.unpaired (h : st.Like L ρ st') (j j' : ScopeId) (hpair : ρ.Pairs j j') :
    j ≠ st.scopes.size ∧ j' ≠ st'.scopes.size := by
  obtain ⟨s, s', hs, hs', -⟩ := h j j' hpair
  exact ⟨Nat.ne_of_lt (lt_size_of_scope? hs), Nat.ne_of_lt (lt_size_of_scope? hs')⟩

/-- New scopes in scopes that correspond become one more pair. -/
theorem Like.openScope (h : st.Like L ρ st') (hpair : ρ.Pairs i i') :
    (st.openScope (some i)).2.Like L (ρ.add st.scopes.size st'.scopes.size h.unpaired)
      (st'.openScope (some i')).2 := by
  -- An old pair is still alike under the larger pairing; the new one has no bindings yet.
  rintro j j' (hold | ⟨rfl, rfl⟩)
  · obtain ⟨s, s', hs, hs', hlike⟩ := h j j' hold
    exact ⟨s, s', scope?_openScope_of_some hs _, scope?_openScope_of_some hs' _,
      hlike.mono (Pairing.le_add h.unpaired)⟩
  · obtain ⟨s, s', hs, hs', -⟩ := h i i' hpair
    refine ⟨⟨[], some i⟩, ⟨[], some i'⟩, ?_, ?_, .nil, .some ⟨.inl hpair, ?_, ?_⟩⟩
    · rw [scope?_openScope, if_pos rfl]
    · rw [scope?_openScope, if_pos rfl]
    · exact lt_size_of_scope? hs
    · exact lt_size_of_scope? hs'

end Store

end Treewalk
