import Mathlib.Logic.ExistsUnique
import Treewalk.Proofs.Machine.Recorded
import Treewalk.Proofs.Views.Store

/-!
# Which functions are equal

Two functions are the same to a program if they remember the same scope and have the same name. That
this tells functions apart rests on the scopes: a declaration binds its name in the scope that the
function remembers, the name stays bound there whatever its value becomes, and a scope declares a
name only once. So a declaration that succeeds makes a function that no earlier one is equal to, and
every function can be traced to the one execution of a declaration that made it.
-/

namespace Treewalk

/-! ## Values in scopes -/

namespace Store

/-- The value is bound to a name in some scope. -/
def Holds (st : Store) (v : Value) : Prop :=
  ∃ i s name, st.scope? i = some s ∧ (name, v) ∈ s.bindings

variable {st st' : Store} {id i : ScopeId} {name x : String} {u v : Value}
  {may : ScopeId → String → Prop}

theorem holds_of_lookup? (h : st.lookup? id name = some v) : st.Holds v := by
  obtain ⟨i, s, hs, hget⟩ := exists_of_lookup? h
  rw [Scope.get?, List.lookup_eq_some_iff] at hget
  obtain ⟨before, after, hbindings, -⟩ := hget
  exact ⟨i, s, name, hs, by simp [hbindings]⟩

theorem holds_of_openScope {enclosing : Option ScopeId}
    (h : (st.openScope enclosing).2.Holds v) : st.Holds v := by
  obtain ⟨i, s, name, hs, hmem⟩ := h
  rw [scope?_openScope] at hs
  split at hs
  · cases hs
    cases hmem
  · exact ⟨i, s, name, hs, hmem⟩

/-- What is bound after a scope was changed was bound before or came with the change. -/
theorem holds_of_modify {f : Scope → Scope}
    (hf : ∀ s : Scope, ∀ b ∈ (f s).bindings, b.2 = u ∨ b ∈ s.bindings)
    (h : (st.modify id f).Holds v) : v = u ∨ st.Holds v := by
  obtain ⟨i, s, name, hs, hmem⟩ := h
  rw [scope?_modify] at hs
  split at hs
  · obtain ⟨s', hs', rfl⟩ := Option.map_eq_some_iff.1 hs
    exact (hf s' _ hmem).imp_right fun hmem' => ⟨i, s', name, hs', hmem'⟩
  · exact .inr ⟨i, s, name, hs, hmem⟩

theorem holds_of_insert (h : (st.insert id name u).Holds v) : v = u ∨ st.Holds v := by
  refine holds_of_modify (fun s b hb => ?_) h
  rcases List.mem_cons.1 hb with rfl | hb
  · exact .inl rfl
  · exact .inr hb

theorem holds_of_replace (h : (st.replace id name u).Holds v) : v = u ∨ st.Holds v := by
  refine holds_of_modify (fun s b hb => ?_) h
  obtain ⟨b', hb', rfl⟩ := List.mem_map.1 hb
  split
  · exact .inl rfl
  · exact .inr hb'

theorem Grows.binds (h : st.Grows may st') (hbinds : st.binds i x) : st'.binds i x := by
  simp only [Store.binds, Option.any_eq_true] at hbinds ⊢
  obtain ⟨s, hs, hx⟩ := hbinds
  obtain ⟨s', hs', hgrows⟩ := h i s hs
  exact ⟨s', hs', hgrows.kept x hx⟩

/-- A name is bound in the scope in which it was declared, if that is there. -/
theorem binds_insert_self (h : id < st.scopes.size) (name : String) (v : Value) :
    (st.insert id name v).binds id name := by
  obtain ⟨s, hs⟩ := scope?_of_lt h
  simp [Store.binds, insert, scope?_modify, hs, Scope.binds_insert]

end Store

/-! ## Records -/

/-- A declaration has made the function. -/
def Declared (past : List Event) (f : Function) : Prop :=
  ∃ before, .declared f before ∈ past

/-- The value is not a function, or one that a declaration has made. -/
def Value.Known (past : List Event) (v : Value) : Prop :=
  ∀ f, v = .callable (.function f) → Declared past f

/-- What can happen next: a value is met that is known, or a function is declared that is unlike all
others, among values that are known. -/
def Event.Fits (past : List Event) : Event → Prop
  | .met v => v.Known past
  | .declared f before => (∀ v, before.store.Holds v → v.Known past) ∧
      ∀ g, Declared past g → (Callable.function g).same (.function f) = false

/-- Every event fits what has happened before it. -/
def Coherent (events : List Event) : Prop :=
  ∀ pre e post, events = pre ++ e :: post → e.Fits pre

/-- The machine agrees with what has happened: its current scope exists, all functions in it have
been declared, and every declared name is still bound. -/
structure Machine.Accords (past : List Event) (m : Machine) : Prop where
  current : m.scope < m.store.scopes.size
  known (v : Value) : m.store.Holds v → v.Known past
  anchored (f : Function) : Declared past f → m.store.binds f.closure f.name.lexeme

section

variable {past events : List Event} {f : Function} {v w : Value} {m after : Machine}

theorem Declared.mono (h : Declared past f) (hle : past <+: events) : Declared events f := by
  obtain ⟨before, hmem⟩ := h
  exact ⟨before, hle.subset hmem⟩

theorem Value.Known.mono (h : v.Known past) (hle : past <+: events) : v.Known events :=
  fun f hv => (h f hv).mono hle

/-- What obeys every policy is not a function. -/
theorem Value.known_of_obeys (h : ∀ P, v.Obeys P) : v.Known past := by
  rintro f rfl
  exact (h ⟨fun _ => True, fun _ => True, fun _ => True, fun _ => True, fun _ => True,
    fun _ => False⟩).1.elim

theorem Coherent.nil : Coherent [] := by
  intro pre e post h
  simp at h

/-- What has happened up to some moment fits together on its own. -/
theorem Coherent.of_append (h : Coherent (past ++ events)) : Coherent past := by
  rintro pre e post rfl
  exact h pre e (post ++ events) (by simp)

/-- One more event that fits. -/
theorem Coherent.concat {e : Event} (h : Coherent past) (he : e.Fits past) :
    Coherent (past ++ [e]) := by
  intro pre e' post heq
  -- The event is the last one, or one of those before.
  rcases List.eq_nil_or_concat post with rfl | ⟨post', last, rfl⟩
  · obtain ⟨rfl, hlast⟩ := List.append_inj' heq rfl
    cases hlast
    exact he
  · rw [List.concat_eq_append, ← List.cons_append, ← List.append_assoc] at heq
    exact h pre e' post' (List.append_inj' heq rfl).1

theorem declared_concat_met : Declared (past ++ [.met v]) f ↔ Declared past f := by
  simp [Declared]

/-- A declaration adds its own function. -/
theorem declared_concat_declared {g : Function} {before : Machine} :
    Declared (past ++ [.declared g before]) f ↔ Declared past f ∨ f = g := by
  simp only [Declared, List.mem_append, List.mem_singleton, Event.declared.injEq]
  constructor
  · rintro ⟨before', hmem | ⟨rfl, -⟩⟩
    · exact .inl ⟨before', hmem⟩
    · exact .inr rfl
  · rintro (⟨before', hmem⟩ | rfl)
    · exact ⟨before', .inl hmem⟩
    · exact ⟨before, .inr ⟨rfl, rfl⟩⟩

theorem Machine.Accords.met (h : m.Accords past) (v : Value) :
    m.Accords (past ++ [.met v]) where
  current := h.current
  known u hu := (h.known u hu).mono (List.prefix_append _ _)
  anchored f hf := h.anchored f (declared_concat_met.1 hf)

/-- Scopes that have grown and hold nothing new but what is known still agree. -/
theorem Machine.Accords.grow {may : ScopeId → String → Prop} (h : m.Accords past)
    (hgrows : m.store.Grows may after.store) (hscope : after.scope < after.store.scopes.size)
    (hknown : ∀ v, after.store.Holds v → v.Known past) : after.Accords past where
  current := hscope
  known := hknown
  anchored f hf := hgrows.binds (h.anchored f hf)

/-- What leaves the scopes alone keeps the machine in accord. -/
theorem Machine.Accords.same (h : m.Accords past) (hscope : after.scope = m.scope)
    (hstore : after.store = m.store) : after.Accords past where
  current := by rw [hscope, hstore]; exact h.current
  known := by rw [hstore]; exact h.known
  anchored := by rw [hstore]; exact h.anchored

/-- A function that remembers a scope without its name is unlike all others: had there been one of
the same name that remembers the scope, the scope would bind the name. -/
theorem Machine.Accords.fits (h : m.Accords past)
    (hfree : ¬m.store.binds f.closure f.name.lexeme) : Event.Fits past (.declared f m) := by
  refine ⟨h.known, fun g hg => Bool.eq_false_iff.2 fun hsame => hfree ?_⟩
  simp only [Callable.same, Bool.and_eq_true, decide_eq_true_eq, beq_iff_eq] at hsame
  rw [← hsame.1, ← hsame.2]
  exact h.anchored g hg

/-- The machine after a declaration agrees with what has now happened. -/
theorem Machine.Accords.declared (h : m.Accords past) (hclosure : f.closure < m.store.scopes.size)
    (hscope : after.scope = m.scope)
    (hstore : after.store = m.store.insert f.closure f.name.lexeme (.callable (.function f))) :
    after.Accords (past ++ [.declared f m]) where
  current := by
    rw [hscope, hstore, Store.insert, Store.size_modify]
    exact h.current
  known u hu := by
    rw [hstore] at hu
    rcases Store.holds_of_insert hu with rfl | hu
    · rintro g hg
      cases hg
      exact declared_concat_declared.2 (.inr rfl)
    · exact (h.known u hu).mono (List.prefix_append _ _)
  -- The names of older functions are still bound, and the name of the new one has just been.
  anchored g hg := by
    rw [hstore]
    rcases declared_concat_declared.1 hg with hg | rfl
    · have hgrows : m.store.Grows (fun _ _ => True)
          (m.store.insert f.closure f.name.lexeme (.callable (.function f))) :=
        Store.modify_grows fun s => Scope.insert_grows trivial s _
      exact hgrows.binds (h.anchored g hg)
    · exact Store.binds_insert_self hclosure _ _

end

/-! ## Recorded runs -/

/-- A moment of a session: what has happened, and how many scopes there are. -/
structure Moment where
  past : List Event
  scopes : Nat

namespace Moment

/-- The moment in which a machine is. -/
def of (past : List Event) (m : Machine) : Moment :=
  ⟨past, m.store.scopes.size⟩

/-- The second moment is not before the first one. -/
structure Le (t t' : Moment) : Prop where
  past : t.past <+: t'.past
  scopes : t.scopes ≤ t'.scopes

variable {t t' t'' : Moment}

theorem Le.refl (t : Moment) : t.Le t :=
  ⟨List.prefix_refl _, Nat.le_refl _⟩

theorem Le.trans (h : t.Le t') (h' : t'.Le t'') : t.Le t'' :=
  ⟨h.past.trans h'.past, Nat.le_trans h.scopes h'.scopes⟩

end Moment

namespace Recorded

variable {α β : Type} {t : Moment} {Q : Moment → α → Prop} {R : Moment → β → Prop}

/-- How a recorded run may end that started when `past` had happened and there were `scopes` many
scopes. -/
structure Sound (past : List Event) (scopes : Nat) (Q : Moment → α → Prop)
    (result : List Event × Outcome α) : Prop where
  coherent : Coherent (past ++ result.1)
  accords (after : Machine) : after ∈ result.2.machine? →
    after.Accords (past ++ result.1) ∧ scopes ≤ after.store.scopes.size
  value (a : α) (after : Machine) : result.2 = .ok a after → Q (.of (past ++ result.1) after) a

/-- From the moment `t` on, in a machine that agrees with what has happened, the run adds events
that fit, leaves a machine that agrees with them, and yields a value that satisfies `Q`. -/
def Keeps (t : Moment) (Q : Moment → α → Prop) (r : Recorded α) : Prop :=
  ∀ past m, t.Le (.of past m) → Coherent past → m.Accords past →
    Sound past m.store.scopes.size Q (r m)

/-! ### Runs without events -/

/-- A run without events has to keep the machine in accord. -/
theorem Keeps.ofRun {r : Run α}
    (haccords : ∀ past m, t.Le (.of past m) → m.Accords past → ∀ after ∈ (r m).machine?,
      after.Accords past ∧ m.store.scopes.size ≤ after.store.scopes.size)
    (hvalue : ∀ past m, t.Le (.of past m) → m.Accords past → ∀ a after, r m = .ok a after →
      Q (.of past after) a) : (ofRun r).Keeps t Q := by
  intro past m ht hcoherent hm
  rw [Recorded.ofRun]
  refine ⟨?_, fun after hafter => ?_, fun a after hok => ?_⟩ <;> simp only [List.append_nil]
  · exact hcoherent
  · exact haccords past m ht hm after hafter
  · exact hvalue past m ht hm a after hok

/-- A run that leaves the scopes as they are. -/
theorem Keeps.of_same {r : Run α}
    (hsame : ∀ m, ∀ after ∈ (r m).machine?, after.scope = m.scope ∧ after.store = m.store)
    (hvalue : ∀ past m, t.Le (.of past m) → m.Accords past → ∀ a after, r m = .ok a after →
      Q (.of past after) a) : (Recorded.ofRun r).Keeps t Q := by
  refine .ofRun (fun past m _ hm after hafter => ?_) hvalue
  obtain ⟨hscope, hstore⟩ := hsame m after hafter
  exact ⟨hm.same hscope hstore, Nat.le_of_eq (by rw [hstore])⟩

theorem Keeps.pure {a : α} (h : ∀ t', t.Le t' → Q t' a) : (pure a : Recorded α).Keeps t Q :=
  .of_same (r := Run.pure a) (fun _ _ hafter => by cases hafter; exact ⟨rfl, rfl⟩)
    fun past m ht _ _ _ hok => by cases hok; exact h _ ht

theorem Keeps.exhausted : (Recorded.ofRun (Run.exhausted : Run α)).Keeps t Q :=
  .of_same (fun _ _ hafter => by cases hafter) fun _ _ _ _ _ _ hok => by cases hok

theorem Keeps.ofExcept {x : Except RuntimeError α}
    (h : ∀ a, x = .ok a → ∀ t', t.Le t' → Q t' a) :
    (Recorded.ofRun (Run.ofExcept x)).Keeps t Q := by
  cases x with
  | ok a => exact .pure (h a rfl)
  | error e =>
    exact .of_same (fun _ _ hafter => by cases hafter; exact ⟨rfl, rfl⟩)
      fun _ _ _ _ _ _ hok => by cases hok

theorem Keeps.note (e : LogEntry) : (Recorded.ofRun (Run.note e)).Keeps t fun _ _ => True :=
  .of_same (fun _ _ hafter => by cases hafter; exact ⟨rfl, rfl⟩) fun _ _ _ _ _ _ _ => trivial

theorem Keeps.write (w : Write) : (Recorded.ofRun (Run.write w)).Keeps t fun _ _ => True :=
  .of_same (fun _ _ hafter => by cases hafter; exact ⟨rfl, rfl⟩) fun _ _ _ _ _ _ _ => trivial

theorem Keeps.readClock : (Recorded.ofRun Run.readClock).Keeps t fun _ _ => True :=
  .of_same (fun _ _ hafter => by cases hafter; exact ⟨rfl, rfl⟩) fun _ _ _ _ _ _ _ => trivial

/-- The current scope exists, and will. -/
theorem Keeps.currentScope :
    (Recorded.ofRun Run.currentScope).Keeps t fun t' id => id < t'.scopes :=
  .of_same (fun _ _ hafter => by cases hafter; exact ⟨rfl, rfl⟩)
    fun _ _ _ hm _ _ hok => by cases hok; exact hm.current

/-- What a name means is known. -/
theorem Keeps.get (name : Token) :
    (Recorded.ofRun (Run.get name)).Keeps t fun t' v => v.Known t'.past := by
  refine .of_same (fun m after hafter => ?_) fun past m _ hm v after hok => ?_
  · simp only [Run.get] at hafter
    split at hafter <;> (cases hafter; exact ⟨rfl, rfl⟩)
  · simp only [Run.get, Store.get] at hok
    cases hlookup : m.store.lookup? m.scope name.lexeme with
    | none => simp [hlookup] at hok
    | some v' =>
      simp only [hlookup] at hok
      cases hok
      exact hm.known _ (Store.holds_of_lookup? hlookup)

/-- The new scope is there from now on. -/
theorem Keeps.openScope (enclosing : ScopeId) :
    (Recorded.ofRun (Run.openScope enclosing)).Keeps t fun t' id => id < t'.scopes := by
  refine .ofRun (fun past m _ hm after hafter => ?_) fun past m _ hm id after hok => ?_
  · cases hafter
    have hgrows : m.store.Grows (fun _ _ => True) (m.store.openScope (some enclosing)).2 :=
      .of_openScope (.refl _ _)
    have hsize : m.store.scopes.size ≤ (m.store.openScope (some enclosing)).2.scopes.size := by
      rw [Store.size_openScope]
      exact Nat.le_succ _
    exact ⟨hm.grow hgrows (Nat.lt_of_lt_of_le hm.current hsize)
      fun v hv => hm.known v (Store.holds_of_openScope hv), hsize⟩
  · cases hok
    simp [Moment.of]

/-- A value that is bound is known, so that scopes hold known values only. -/
theorem Keeps.define {scope : ScopeId} {name : Token} {v : Value} (hv : v.Known t.past) :
    (Recorded.ofRun (Run.define scope name v)).Keeps t fun _ _ => True := by
  refine .ofRun (fun past m ht hm after hafter => ?_) fun _ _ _ _ _ _ _ => trivial
  simp only [Run.define] at hafter
  split at hafter
  · cases hafter
    have hgrows : m.store.Grows (fun _ _ => True) (m.store.insert scope name.lexeme v) :=
      Store.modify_grows fun s => Scope.insert_grows trivial s v
    have hsize := m.store.size_modify scope fun s => s.insert name.lexeme v
    refine ⟨hm.grow hgrows (hsize ▸ hm.current) fun u hu => ?_, Nat.le_of_eq hsize.symm⟩
    rcases Store.holds_of_insert hu with rfl | hu
    · exact hv.mono ht.past
    · exact hm.known u hu
  · cases hafter
    exact ⟨hm, Nat.le_refl _⟩

/-- The same holds of a value that is assigned. -/
theorem Keeps.assign {name : Token} {v : Value} (hv : v.Known t.past) :
    (Recorded.ofRun (Run.assign name v)).Keeps t fun _ _ => True := by
  refine .ofRun (fun past m ht hm after hafter => ?_) fun _ _ _ _ _ _ _ => trivial
  simp only [Run.assign] at hafter
  split at hafter
  next binder _ =>
    cases hafter
    have hgrows : m.store.Grows (fun _ _ => True) (m.store.replace binder name.lexeme v) :=
      Store.modify_grows fun s => Scope.replace_grows _ s name.lexeme v
    have hsize := m.store.size_modify binder fun s => s.replace name.lexeme v
    refine ⟨hm.grow hgrows (hsize ▸ hm.current) fun u hu => ?_, Nat.le_of_eq hsize.symm⟩
    rcases Store.holds_of_replace hu with rfl | hu
    · exact hv.mono ht.past
    · exact hm.known u hu
  next =>
    cases hafter
    exact ⟨hm, Nat.le_refl _⟩

/-! ### Runs with events -/

/-- The second run starts in a later moment, about which the first one says what it yields. -/
theorem Keeps.bind {r : Recorded α} {f : α → Recorded β} (hr : r.Keeps t Q)
    (hf : ∀ t' a, t.Le t' → Q t' a → (f a).Keeps t' R) : (r >>= f).Keeps t R := by
  intro past m ht hcoherent hm
  have hfirst := hr past m ht hcoherent hm
  change Sound past m.store.scopes.size R (Recorded.bind r f m)
  unfold Recorded.bind
  rcases hrm : r m with ⟨events, _ | _ | _⟩ <;> rw [hrm] at hfirst
  case ok a mid =>
    obtain ⟨hmid, hsize⟩ := hfirst.accords mid rfl
    -- Time has passed: more has happened, and there are no fewer scopes.
    have hle : (Moment.of past m).Le (.of (past ++ events) mid) :=
      ⟨List.prefix_append _ _, hsize⟩
    have hthen := hf _ a (ht.trans hle) (hfirst.value a mid rfl) (past ++ events) mid (.refl _)
      hfirst.coherent hmid
    refine ⟨?_, fun after hafter => ?_, fun b after hok => ?_⟩ <;>
      simp only [← List.append_assoc]
    · exact hthen.coherent
    · obtain ⟨hafter', hsize'⟩ := hthen.accords after hafter
      exact ⟨hafter', Nat.le_trans hsize hsize'⟩
    · exact hthen.value b after hok
  case failed e mid => exact ⟨hfirst.coherent, hfirst.accords, fun _ _ hok => by cases hok⟩
  case outOfFuel => exact ⟨hfirst.coherent, hfirst.accords, fun _ _ hok => by cases hok⟩

/-- A scope that was there is still there, so that it can be current. -/
theorem Keeps.within {r : Recorded α} {scope : ScopeId} (hscope : scope < t.scopes)
    (hr : r.Keeps t Q) : (within scope r).Keeps t Q := by
  intro past m ht hcoherent hm
  have hinner := hr past { m with scope } ht hcoherent
    ⟨Nat.lt_of_lt_of_le hscope ht.scopes, hm.known, hm.anchored⟩
  unfold Recorded.within
  rcases hrm : r { m with scope } with ⟨events, o⟩
  rw [hrm] at hinner
  -- The scope from before is there as well when the run has ended.
  have hback {after : Machine} (hafter : after ∈ o.machine?) :
      { after with scope := m.scope }.Accords (past ++ events) := by
    obtain ⟨hafter, hsize⟩ := hinner.accords after hafter
    exact ⟨Nat.lt_of_lt_of_le hm.current hsize, hafter.known, hafter.anchored⟩
  refine ⟨hinner.coherent, fun after hafter => ?_, fun a after hok => ?_⟩
  · cases o <;> cases hafter
    · exact ⟨hback rfl, (hinner.accords _ rfl).2⟩
    · exact ⟨hback rfl, (hinner.accords _ rfl).2⟩
  · cases o with
    | ok a' mid =>
      cases hok
      exact hinner.value a mid rfl
    | _ => cases hok

/-- A value that a run yields is known, so that meeting it fits. -/
theorem Keeps.meeting {r : Recorded Value} (hr : r.Keeps t fun t' v => v.Known t'.past) :
    (meeting r).Keeps t fun t' v => v.Known t'.past := by
  intro past m ht hcoherent hm
  have hfirst := hr past m ht hcoherent hm
  unfold Recorded.meeting
  rcases hrm : r m with ⟨events, _ | _ | _⟩ <;> rw [hrm] at hfirst
  case ok v mid =>
    have hv : v.Known (past ++ events) := hfirst.value v mid rfl
    obtain ⟨hmid, hsize⟩ := hfirst.accords mid rfl
    refine ⟨?_, fun after hafter => ?_, fun u after hok => ?_⟩ <;>
      simp only [← List.append_assoc]
    · exact hfirst.coherent.concat hv
    · cases hafter
      exact ⟨hmid.met v, hsize⟩
    · cases hok
      exact hv.mono (List.prefix_append _ _)
  case failed e mid => exact ⟨hfirst.coherent, hfirst.accords, fun _ _ hok => by cases hok⟩
  case outOfFuel => exact ⟨hfirst.coherent, hfirst.accords, fun _ _ hok => by cases hok⟩

/-- The heart of the matter: a declaration that succeeds found its name free, and all functions of
this scope and name have theirs bound. -/
theorem Keeps.declare {f : Function} (hclosure : f.closure < t.scopes) :
    (declare f).Keeps t fun _ _ => True := by
  intro past m ht hcoherent hm
  unfold Recorded.declare Run.define
  by_cases hfree : m.store.binds f.closure f.name.lexeme
  · simp only [Store.checkFree, hfree, if_true]
    exact ⟨by simpa using hcoherent, fun after hafter => by cases hafter; simpa using hm,
      fun _ _ _ => trivial⟩
  · simp only [Store.checkFree, hfree]
    refine ⟨hcoherent.concat (hm.fits hfree), fun after hafter => ?_, fun _ _ _ => trivial⟩
    cases hafter
    exact ⟨hm.declared (Nat.lt_of_lt_of_le hclosure ht.scopes) rfl rfl,
      Nat.le_of_eq (Store.size_modify ..).symm⟩

/-- A sequence of runs without events has none either. -/
theorem ofRun_bind (r : Run α) (f : α → Run β) :
    ofRun (r >>= f) = ofRun r >>= fun a => ofRun (f a) := by
  funext m
  change ([], Outcome.bind (r m) f) = Recorded.bind (ofRun r) _ m
  unfold Recorded.bind Recorded.ofRun
  cases r m <;> rfl

end Recorded

/-! ## Expressions -/

/-- The value that a statement returns, if it does, is known. -/
def Flow.Known (past : List Event) : Flow → Prop
  | .next => True
  | .returned v => v.Known past

namespace Recorded

variable {apply : Callable → List Value → Recorded Value} {t : Moment}

/-- Calls with arguments that are known keep to the record. -/
def CallsKeep (apply : Callable → List Value → Recorded Value) : Prop :=
  ∀ t c args, (∀ v ∈ args, v.Known t.past) → (apply c args).Keeps t fun t' v => v.Known t'.past

mutual

/-- Evaluation meets values that are known: functions come from scopes and from calls, and operators
make none. -/
theorem evaluate_keeps (h : CallsKeep apply) :
    (e : Expr) → {t : Moment} → (evaluate apply e).Keeps t fun t' v => v.Known t'.past
  | .literal value, t => by
    rw [evaluate]
    exact .meeting (.pure fun _ _ => Value.known_of_obeys fun P => Value.ofLiteral_obeys P value)
  | .var name, t => by
    rw [evaluate]
    exact .meeting (.get name)
  | .assign name e, t => by
    rw [evaluate]
    exact .meeting (.bind (evaluate_keeps h e) fun t₁ v _ hv => .bind (.assign hv) fun t₂ _ ht₂ _ =>
      .pure fun t₃ ht₃ => hv.mono (ht₂.trans ht₃).past)
  | .unary op e, t => by
    rw [evaluate]
    exact .meeting (.bind (evaluate_keeps h e) fun t₁ v _ _ => .ofExcept fun u hu t₂ _ =>
      Value.known_of_obeys fun _ => Operator.unary_obeys hu)
  | .binary l op r, t => by
    rw [evaluate]
    exact .meeting (.bind (evaluate_keeps h l) fun t₁ x _ _ => .bind (evaluate_keeps h r)
      fun t₂ y _ _ => .ofExcept fun u hu t₃ _ =>
        Value.known_of_obeys fun _ => Operator.binary_obeys hu)
  | .logical l op r, t => by
    rw [evaluate]
    refine .meeting (.bind (evaluate_keeps h l) fun t₁ x _ hx =>
      .bind (.ofExcept fun _ _ _ _ => trivial) fun t₂ decided ht₂ _ => ?_)
    split
    · exact .pure fun t₃ ht₃ => hx.mono (ht₂.trans ht₃).past
    · exact evaluate_keeps h r
  | .group e, t => by
    rw [evaluate]
    exact .meeting (evaluate_keeps h e)
  -- The arguments are still known when the call starts, although time has passed.
  | .call e paren args, t => by
    rw [evaluate]
    refine .meeting (.bind (evaluate_keeps h e) fun t₁ f _ _ => .bind (evaluateAll_keeps h args)
      fun t₂ vs _ hvs => .bind (.ofExcept fun _ _ _ _ => trivial) fun t₃ c ht₃ _ =>
        .bind (.note _) fun t₄ _ ht₄ _ => h t₄ c vs fun v hv => ?_)
    exact (hvs v hv).mono (ht₃.trans ht₄).past

/-- All arguments are known when the last one has been evaluated. -/
theorem evaluateAll_keeps (h : CallsKeep apply) : (es : List Expr) → {t : Moment} →
    (evaluateAll apply es).Keeps t fun t' vs => ∀ v ∈ vs, v.Known t'.past
  | [], t => by
    rw [evaluateAll]
    exact .pure fun _ _ => by simp
  | e :: es, t => by
    rw [evaluateAll]
    refine .bind (evaluate_keeps h e) fun t₁ v _ hv => .bind (evaluateAll_keeps h es)
      fun t₂ vs ht₂ hvs => .pure fun t₃ ht₃ => ?_
    exact List.forall_mem_cons.2
      ⟨hv.mono (ht₂.trans ht₃).past, fun u hu => (hvs u hu).mono ht₃.past⟩

end

theorem evaluateOption_keeps (h : CallsKeep apply) (e : Option Expr) :
    (evaluateOption apply e).Keeps t fun t' v => v.Known t'.past := by
  cases e with
  | none => exact .pure fun _ _ => Value.known_of_obeys fun _ => trivial
  | some e => exact evaluate_keeps h e

/-! ## Statements -/

/-- Rounds of a loop, each starting in a later moment. -/
theorem repeatWhile_keeps {cond : Recorded Value} {body : Recorded Flow}
    (hcond : ∀ t, cond.Keeps t fun t' v => v.Known t'.past)
    (hbody : ∀ t, body.Keeps t fun t' flow => flow.Known t'.past) (fuel : Nat) (t : Moment) :
    (repeatWhile cond body fuel).Keeps t fun t' flow => flow.Known t'.past := by
  induction fuel generalizing t with
  | zero => exact .exhausted
  | succ fuel ih =>
    refine .bind (hcond t) fun t₁ v _ _ => ?_
    split
    · refine .bind (hbody t₁) fun t₂ flow _ hflow => ?_
      cases flow with
      | next => exact ih t₂
      | returned v => exact .pure fun _ ht₃ => Value.Known.mono hflow ht₃.past
    · exact .pure fun _ _ => trivial

mutual

/-- Execution adds declarations, and nothing else that makes functions. -/
theorem execute_keeps (h : CallsKeep apply) (fuel : Nat) :
    (s : Stmt) → {t : Moment} → (execute apply fuel s).Keeps t fun t' flow => flow.Known t'.past
  | .expr e, t => by
    rw [execute]
    exact .bind (evaluate_keeps h e) fun _ _ _ _ => .pure fun _ _ => trivial
  | .print e, t => by
    rw [execute]
    exact .bind (evaluate_keeps h e) fun _ v _ _ => .bind (.write _) fun _ _ _ _ =>
      .pure fun _ _ => trivial
  | .var name initializer, t => by
    rw [execute]
    exact .bind (evaluateOption_keeps h initializer) fun t₁ v _ hv => .bind .currentScope
      fun t₂ scope ht₂ _ => .bind (.define (hv.mono ht₂.past)) fun _ _ _ _ =>
        .pure fun _ _ => trivial
  | .block body, t => by
    rw [execute]
    exact .bind .currentScope fun t₁ current _ _ => .bind (.openScope current)
      fun t₂ scope _ hscope => .within hscope (executeAll_keeps h fuel body)
  | .branch cond thenBranch none, t => by
    rw [execute]
    refine .bind (evaluate_keeps h cond) fun t₁ v _ _ => ?_
    split
    · exact execute_keeps h fuel thenBranch
    · exact .pure fun _ _ => trivial
  | .branch cond thenBranch (some elseBranch), t => by
    rw [execute]
    refine .bind (evaluate_keeps h cond) fun t₁ v _ _ => ?_
    split
    · exact execute_keeps h fuel thenBranch
    · exact execute_keeps h fuel elseBranch
  | .loop cond body, t => by
    rw [execute]
    exact repeatWhile_keeps (fun _ => evaluate_keeps h cond) (fun _ => execute_keeps h fuel body)
      fuel t
  -- The current scope is there, so that the name can be bound in it.
  | .function name params body, t => by
    rw [execute]
    exact .bind .currentScope fun t₁ scope _ hscope => .bind (.declare hscope) fun _ _ _ _ =>
      .pure fun _ _ => trivial
  | .ret keyword value, t => by
    rw [execute]
    exact .bind (evaluateOption_keeps h value) fun t₁ v _ hv => .pure fun _ ht₂ => hv.mono ht₂.past

theorem executeAll_keeps (h : CallsKeep apply) (fuel : Nat) : (ss : List Stmt) → {t : Moment} →
    (executeAll apply fuel ss).Keeps t fun t' flow => flow.Known t'.past
  | [], t => by
    rw [executeAll]
    exact .pure fun _ _ => trivial
  | s :: rest, t => by
    rw [executeAll]
    refine .bind (execute_keeps h fuel s) fun t₁ flow _ hflow => ?_
    cases flow with
    | next => exact executeAll_keeps h fuel rest
    | returned v => exact .pure fun _ ht₂ => Value.Known.mono hflow ht₂.past

end

/-! ## Calls -/

/-- Native functions give no functions. -/
theorem nativeCall_keeps (f : Native) (args : List Value) :
    (ofRun (f.call args)).Keeps t fun t' v => v.Known t'.past := by
  cases f with
  | clock =>
    rw [Native.call, ofRun_bind]
    exact .bind .readClock fun _ _ _ _ => .pure fun _ _ => Value.known_of_obeys fun _ => trivial
  | write =>
    rw [Native.call, ofRun_bind]
    refine .bind (Q := fun _ _ => True) ?_ fun _ _ _ _ =>
      .pure fun _ _ => Value.known_of_obeys fun _ => trivial
    induction args generalizing t with
    | nil => exact .pure fun _ _ => trivial
    | cons v vs ih =>
      rw [List.forM_eq_forM, List.forM_cons, ofRun_bind]
      exact .bind (.write _) fun _ _ _ _ => ih
  | writeLine =>
    rw [Native.call, ofRun_bind]
    exact .bind (.write _) fun _ _ _ _ => .pure fun _ _ => Value.known_of_obeys fun _ => trivial

/-- Parameters are bound to arguments, which are known. -/
theorem bindParams_keeps (scope : ScopeId) (params : List Token) {args : List Value} {t : Moment}
    (h : ∀ v ∈ args, v.Known t.past) :
    (ofRun (bindParams scope params args)).Keeps t fun _ _ => True := by
  induction params generalizing args t with
  | nil => exact .pure fun _ _ => trivial
  | cons p ps ih =>
    cases args with
    | nil => exact .pure fun _ _ => trivial
    | cons v vs =>
      rw [bindParams, ofRun_bind]
      exact .bind (.define (h v (.head _))) fun t₁ _ ht₁ _ =>
        ih fun u hu => (h u (.tail _ hu)).mono ht₁.past

/-- Calls keep to the record, by induction on the fuel. -/
theorem call_keeps (fuel : Nat) : CallsKeep (call fuel) := by
  induction fuel with
  | zero =>
    intro t c args _
    cases c with
    | native f => exact nativeCall_keeps f args
    | function f => exact .exhausted
  | succ fuel ih =>
    intro t c args hargs
    cases c with
    | native f => exact nativeCall_keeps f args
    | function f =>
      refine .bind (.openScope f.closure) fun t₁ scope ht₁ hscope =>
        .bind (bindParams_keeps scope f.params fun v hv => (hargs v hv).mono ht₁.past)
          fun t₂ _ ht₂ _ => .bind (.within (Nat.lt_of_lt_of_le hscope ht₂.scopes)
            (executeAll_keeps ih fuel f.body)) fun t₃ flow _ hflow => ?_
      cases flow with
      | next => exact .pure fun _ _ => Value.known_of_obeys fun _ => trivial
      | returned v => exact .pure fun _ ht₄ => Value.Known.mono hflow ht₄.past

end Recorded

/-! ## Sessions -/

namespace Session

/-- Some session of units comes to the machine, and this is what happened in it. -/
inductive Chronicle : List Event → Machine → Prop where
  | initial (clock : Clock) : Chronicle [] (.initial clock)
  | fresh {past m} : Chronicle past m → Chronicle past (fresh m)
  | run {past m fuel source report after} : Chronicle past m →
      m.run fuel source = some (report, after) →
      Chronicle (past ++ (m.runRecorded fuel source).1) after

/-- The step runs a unit. -/
def Step.IsRun (step : Step) : Prop :=
  ∃ source, step = .run source

/-- Every session of units has a record. -/
theorem Reachable.exists_chronicle {m : Machine} (h : Reachable Step.IsRun m) :
    ∃ past, Chronicle past m := by
  induction h with
  | initial clock => exact ⟨[], .initial clock⟩
  | fresh _ ih =>
    obtain ⟨past, hpast⟩ := ih
    exact ⟨past, .fresh hpast⟩
  | step _ hallowed hperform ih =>
    obtain ⟨past, hpast⟩ := ih
    obtain ⟨source, rfl⟩ := hallowed
    obtain ⟨⟨r, _⟩, hrun, hafter⟩ := Option.map_eq_some_iff.1 hperform
    cases hafter
    exact ⟨_, .run hpast hrun⟩

/-- A new machine holds native functions only, and nothing has happened yet. -/
theorem initial_accords (clock : Clock) : (Machine.initial clock).Accords [] where
  current := by
    simp [Machine.initial, Machine.provideNatives, Native.all, Store.provide, Machine.globals]
  known v hv := by
    obtain ⟨i, s, name, hs, hmem⟩ := hv
    exact Value.known_of_obeys fun P => initial_obeys clock i s hs _ hmem
  anchored f hf := by
    obtain ⟨before, hmem⟩ := hf
    cases hmem

/-- A unit keeps to the record, also if it never ends. -/
theorem run_keeps {past : List Event} {m : Machine} (hcoherent : Coherent past)
    (hm : m.Accords past) (fuel : Nat) (source : String) :
    Coherent (past ++ (m.runRecorded fuel source).1) ∧
      ∀ report after, m.run fuel source = some (report, after) →
        after.Accords (past ++ (m.runRecorded fuel source).1) := by
  by_cases hparses : ∃ statements, ParsesTo source statements
  · obtain ⟨statements, hparses⟩ := hparses
    have halike := m.ready_alike source
    -- Reading the unit leaves the scopes alone, and so the machine still agrees with the record.
    have hsound := Recorded.executeAll_keeps (Recorded.call_keeps fuel) fuel statements past
      (m.ready source) (.refl _) hcoherent (hm.same halike.scope halike.store)
    have hrun := m.runRecorded_snd fuel source
    rw [Machine.runRecorded_of_parsesTo hparses] at hrun ⊢
    refine ⟨hsound.coherent, fun report after hafter => ?_⟩
    obtain ⟨left, hleft, hafter, hscope⟩ := Outcome.leaves_of_reported (hrun.trans hafter)
    obtain ⟨hleft, -⟩ := hsound.accords left hleft
    have hstore : after.store = left.store := hafter.store
    refine ⟨?_, by rw [hstore]; exact hleft.known, by rw [hstore]; exact hleft.anchored⟩
    rw [hstore]
    rcases hscope with hscope | hscope <;> rw [hscope]
    · exact hleft.current
    · exact Nat.zero_lt_of_lt hleft.current
  · obtain ⟨left, hleft, hrun⟩ := Machine.run_of_errors hparses m fuel
    rw [Machine.runRecorded_of_errors hparses, List.append_nil]
    refine ⟨hcoherent, fun report after hafter => ?_⟩
    rw [hrun] at hafter
    cases hafter
    exact hm.same hleft.scope hleft.store

/-- What has happened in a session fits together, and the machine agrees with it. -/
theorem Chronicle.accords {past : List Event} {m : Machine} (h : Chronicle past m) :
    Coherent past ∧ m.Accords past := by
  induction h with
  | initial clock => exact ⟨.nil, initial_accords clock⟩
  | fresh _ ih => exact ⟨ih.1, ih.2.same rfl rfl⟩
  | run _ hrun ih =>
    obtain ⟨hcoherent, hafter⟩ := run_keeps ih.1 ih.2 _ _
    exact ⟨hcoherent, hafter _ _ hrun⟩

end Session

/-! ## Identity -/

/-- The function as a value. -/
def Function.value (f : Function) : Value :=
  .callable (.function f)

/-- The function that a declaration has made. -/
def Event.made? : Event → Option Function
  | .declared f _ => some f
  | .met _ => none

/-- The function was made by the execution of a declaration that is event `p`. -/
def MadeAt (events : List Event) (p : Nat) (f : Function) : Prop :=
  events[p]?.bind Event.made? = some f

section

variable {past events pre post : List Event} {f g : Function} {v : Value} {before : Machine}
  {p q : Nat}

theorem Function.same_value : f.value.same g.value = (Callable.function f).same (.function g) :=
  rfl

theorem Callable.same_comm (c d : Callable) : c.same d = d.same c := by
  cases c <;> cases d <;> simp [same, Bool.beq_comm, eq_comm]

/-- An execution that made a function is a declaration in the record. -/
theorem madeAt_iff : MadeAt events p f ↔ ∃ before, events[p]? = some (.declared f before) := by
  simp only [MadeAt, Option.bind_eq_some_iff]
  constructor
  · rintro ⟨e, he, hmade⟩
    cases e <;> cases hmade
    exact ⟨_, he⟩
  · rintro ⟨before, he⟩
    exact ⟨_, he, rfl⟩

/-- A function that was declared was made by some execution. -/
theorem declared_iff_madeAt : Declared events f ↔ ∃ p, MadeAt events p f := by
  simp only [Declared, madeAt_iff, List.mem_iff_getElem?]
  exact exists_comm

/-- A function that was met was declared before. -/
theorem known_of_mem_met (h : Coherent events) (hmet : .met v ∈ events) : v.Known events := by
  obtain ⟨pre, post, rfl⟩ := List.append_of_mem hmet
  exact Value.Known.mono (h pre _ post rfl) (List.prefix_append _ _)

/-- A value that was there when a function was declared, or had been met before, is not the same. -/
theorem same_eq_false_of_declared (h : Coherent (pre ++ .declared f before :: post))
    (hv : v.Known pre) : v.same f.value = false := by
  cases v with
  | callable c =>
    cases c with
    | native _ => rfl
    | function g => exact (h pre _ post rfl).2 g (hv g rfl)
  | _ => rfl

/-- Functions made by different executions are not the same. -/
theorem same_eq_false_of_lt (h : Coherent events) (hp : MadeAt events p f) (hq : MadeAt events q g)
    (hlt : p < q) : f.value.same g.value = false := by
  obtain ⟨before, hp⟩ := madeAt_iff.1 hp
  obtain ⟨before', hq⟩ := madeAt_iff.1 hq
  obtain ⟨hbound, hq⟩ := List.getElem?_eq_some_iff.1 hq
  -- The record is split at the later of the two executions, in front of which the earlier one
  -- stands.
  have hsplit : events = events.take q ++ .declared g before' :: events.drop (q + 1) := by
    rw [← hq, List.getElem_cons_drop, List.take_append_drop]
  rw [hsplit] at h
  refine same_eq_false_of_declared h ?_
  rintro f' hf'
  cases hf'
  exact ⟨before, List.mem_of_getElem? (by rw [List.getElem?_take_of_lt hlt]; exact hp)⟩

/-- Functions are the same if and only if one declaration made them. -/
theorem same_iff_of_madeAt (h : Coherent events) (hp : MadeAt events p f)
    (hq : MadeAt events q g) : f.value.same g.value ↔ p = q := by
  constructor
  · intro hsame
    rcases Nat.lt_trichotomy p q with hlt | heq | hlt
    · rw [same_eq_false_of_lt h hp hq hlt] at hsame
      cases hsame
    · exact heq
    · rw [Function.same_value, Callable.same_comm, ← Function.same_value,
        same_eq_false_of_lt h hq hp hlt] at hsame
      cases hsame
  · rintro rfl
    obtain rfl : f = g := Option.some.inj (hp.symm.trans hq)
    simp [Function.same_value, Callable.same]

/-- No execution makes a function that another one has made. -/
theorem exists_unique_madeAt (h : Coherent events) (hf : Declared events f) :
    ∃! p, MadeAt events p f := by
  obtain ⟨p, hp⟩ := declared_iff_madeAt.1 hf
  refine ⟨p, hp, fun q hq => ?_⟩
  exact (same_iff_of_madeAt h hq hp).1 ((same_iff_of_madeAt h hp hp).2 rfl)

end

/-- Functions could as well be compared by their declarations. Let `declaration p` be the
declaration that is executed in event `p`, in whatever way declarations are told apart, as long as
one declaration has one name. In every session, two functions are the same if and only if they come
from one declaration and remember one scope. -/
theorem same_iff_declaration_and_closure {past : List Event} {m : Machine}
    (hm : Session.Chronicle past m) {fuel : Nat} {source : String} {events : List Event}
    (hevents : events = past ++ (m.runRecorded fuel source).1) {ι : Type} {declaration : Nat → ι}
    (hname : ∀ p q f g, MadeAt events p f → MadeAt events q g → declaration p = declaration q →
      f.name.lexeme = g.name.lexeme) {f g : Function} {p q : Nat} (hp : MadeAt events p f)
    (hq : MadeAt events q g) :
    f.value.same g.value ↔ declaration p = declaration q ∧ f.closure = g.closure := by
  obtain ⟨hcoherent, haccords⟩ := hm.accords
  have hcoherent : Coherent events := hevents ▸ (Session.run_keeps hcoherent haccords fuel source).1
  constructor
  · intro hsame
    obtain rfl := (same_iff_of_madeAt hcoherent hp hq).1 hsame
    obtain rfl : f = g := Option.some.inj (hp.symm.trans hq)
    exact ⟨rfl, rfl⟩
  · rintro ⟨hdeclaration, hclosure⟩
    simp [Function.same_value, Callable.same, hname p q f g hp hq hdeclaration, hclosure]

/-- In every machine to which a session of units comes, with whatever has happened in it, and for
every unit that is run there, whether it ends or not:

* recording what happens does not change how the unit ends;
* a declaration that succeeds makes a function that is not the same as any value in any scope at
  that moment, nor as any value met before, such as the arguments and the pending results of that
  moment;
* every function that is ever met, or is bound when the unit has ended, was made by exactly one
  execution of a declaration;
* two functions are the same if and only if it was one execution that made them. -/
theorem function_equality_is_identity {m : Machine} (hm : Session.Reachable Session.Step.IsRun m) :
    (∃ past, Session.Chronicle past m) ∧
    ∀ past, Session.Chronicle past m → ∀ fuel source events,
      events = past ++ (m.runRecorded fuel source).1 →
      (m.runRecorded fuel source).2 = m.run fuel source ∧
      (∀ pre f before post, events = pre ++ .declared f before :: post →
        ∀ v, before.store.Holds v ∨ .met v ∈ pre → v.same f.value = false) ∧
      (∀ f, (.met f.value ∈ events ∨ m.store.Holds f.value ∨ ∃ report after,
          m.run fuel source = some (report, after) ∧ after.store.Holds f.value) →
        ∃! p, MadeAt events p f) ∧
      ∀ f g p q, MadeAt events p f → MadeAt events q g → (f.value.same g.value ↔ p = q) := by
  refine ⟨hm.exists_chronicle, ?_⟩
  rintro past hpast fuel source events rfl
  obtain ⟨hcoherent, hknown⟩ := hpast.accords
  -- All of it follows from the events fitting together, and from the machine agreeing with them.
  obtain ⟨hevents, hafter⟩ := Session.run_keeps hcoherent hknown fuel source
  refine ⟨m.runRecorded_snd fuel source, ?_, ?_, fun f g p q => same_iff_of_madeAt hevents⟩
  · intro pre f before post hsplit v hv
    rw [hsplit] at hevents
    refine same_eq_false_of_declared hevents ?_
    rcases hv with hv | hv
    · exact (hevents pre _ post rfl).1 v hv
    · exact known_of_mem_met hevents.of_append hv
  · intro f hf
    refine exists_unique_madeAt hevents ?_
    rcases hf with hf | hf | ⟨report, after, hrun, hf⟩
    · exact known_of_mem_met hevents hf f rfl
    · exact (hknown.known _ hf f rfl).mono (List.prefix_append _ _)
    · exact (hafter report after hrun).known _ hf f rfl

/-- The inner declaration is executed twice, the second time while the function that it made the
first time is an argument. -/
theorem function_equality_is_identity_of_argument :
    let m := Machine.initial (.startingAt 0)
    let events := (m.runRecorded 10 ("fun f(x) \x7b fun g() \x7b\x7d " ++
      "if (x) return g == x; return g; \x7d print f(f(null));")).1
    Session.Reachable Session.Step.IsRun m ∧ Session.Chronicle [] m ∧
      ∃ g h, MadeAt events 4 g ∧ MadeAt events 8 h ∧ g.name.lexeme = "g" ∧ h.name.lexeme = "g" ∧
        g.value.same h.value = false := by
  intro m events
  have hreachable : Session.Reachable Session.Step.IsRun m := .initial _
  have hchronicle : Session.Chronicle [] m := .initial _
  obtain ⟨-, -, -, hsame⟩ :=
    (function_equality_is_identity hreachable).2 [] hchronicle 10 _ events rfl
  have hnames : (events[4]?.bind Event.made?).map (·.name.lexeme) = some "g" ∧
      (events[8]?.bind Event.made?).map (·.name.lexeme) = some "g" := by decide +kernel
  obtain ⟨g, hg, hgname⟩ := Option.map_eq_some_iff.1 hnames.1
  obtain ⟨h, hh, hhname⟩ := Option.map_eq_some_iff.1 hnames.2
  refine ⟨hreachable, hchronicle, g, h, hg, hh, hgname, hhname, Bool.eq_false_iff.2 fun heq => ?_⟩
  exact absurd ((hsame g h 4 8 hg hh).1 heq) (by decide)

end Treewalk
