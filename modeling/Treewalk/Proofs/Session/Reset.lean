import Treewalk.Proofs.Likeness.Session
import Treewalk.Proofs.Machine.Growth

/-!
# Reset

A reset clears the global scope and provides the natives again. It does not take back the scopes
that were opened before, and so the scopes of a machine after a reset have other numbers than those
of a new machine. Nobody sees that: nothing that is bound after a reset refers to the old scopes,
and the two machines are alike under the pairing of their global scopes.
-/

namespace Treewalk

/-! ## The global scope -/

/-- The global scope is there and lies in no other one. -/
def Store.Rooted (st : Store) : Prop :=
  ∃ s, st.scope? Machine.globals = some s ∧ s.enclosing = none

namespace Store.Rooted

variable {st st' : Store}

theorem modify (h : st.Rooted) {i : ScopeId} {f : Scope → Scope}
    (hf : ∀ s, (f s).enclosing = s.enclosing) : (st.modify i f).Rooted := by
  obtain ⟨s, hs, hnone⟩ := h
  unfold Rooted
  rw [scope?_modify, hs]
  split
  · exact ⟨f s, rfl, (hf s).trans hnone⟩
  · exact ⟨s, rfl, hnone⟩

theorem of_grows {may : ScopeId → String → Prop} (h : st.Rooted) (hgrows : st.Grows may st') :
    st'.Rooted := by
  obtain ⟨s, hs, hnone⟩ := h
  obtain ⟨s', hs', hgrown⟩ := hgrows _ s hs
  exact ⟨s', hs', hgrown.enclosing.trans hnone⟩

theorem provide (h : st.Rooted) (name : String) (v : Value) :
    (st.provide Machine.globals name v).Rooted :=
  h.modify fun s => s.set_enclosing name v

theorem provideNatives {m : Machine} (h : m.store.Rooted) : m.provideNatives.store.Rooted :=
  ((h.provide _ _).provide _ _).provide _ _

end Store.Rooted

namespace Session

variable {m : Machine} {fuel : Nat}

/-- No step moves the global scope into another one, or drops it. -/
theorem Step.Effect.rooted {step : Step} {after : Machine} (h : step.Effect fuel m after)
    (hm : m.store.Rooted) : after.store.Rooted := by
  cases h with
  | none halike => rwa [halike.store]
  | @executed _ statements before _ _ hbefore hleaves =>
    obtain ⟨left, hleft, halike, -⟩ := hleaves
    have hgrows : (executeAll (Treewalk.call fuel) fuel statements).Grows before.scope
        fun _ _ => True :=
      executeAll_grows (call_grows fuel) statements fun _ _ => trivial
    rw [halike.store]
    rw [← hbefore.store] at hm
    exact hm.of_grows (hgrows before rfl left hleft).2
  | reset => exact Store.Rooted.provideNatives (hm.modify fun _ => rfl)
  | cleared => exact hm.modify fun _ => rfl
  | defined => exact hm.modify fun _ => rfl
  | assigned => exact hm.modify fun _ => rfl
  | provided => exact hm.provide _ _
  | called _ hafter =>
    exact hm.of_grows (call_grows fuel m.scope (fun _ _ => True) _ _ m rfl after hafter).2

/-- So the global scope is there in every session. -/
theorem Reachable.rooted {allowed : Step → Prop} (h : Reachable allowed m) : m.store.Rooted :=
  h.invariant (fun _ => Store.Rooted.provideNatives ⟨⟨[], none⟩, rfl, rfl⟩) (fun _ hm => hm)
    fun _ _ _ _ _ hm heffect => heffect.rooted hm

end Session

/-! ## What the host sees -/

/-- A value as the host sees it. Of something that can be called it sees the texts and the number of
parameters, but neither its body nor its scope. -/
inductive Shown where
  | literal (value : Literal)
  | callable (text : String) (arity : Nat) (debugText : String)

/-- What the host sees of a value. -/
def Value.shown : Value → Shown
  | null => .literal .null
  | bool b => .literal (.bool b)
  | number x => .literal (.number x)
  | string s => .literal (.string s)
  | callable c => .callable c.text c.arity c.debugText

variable {L : Likeness} {ρ : Pairing}

theorem Value.Like.shown_eq {v v' : Value} (h : v.Like L ρ v') : v.shown = v'.shown := by
  cases h with
  | callable h => simp only [shown, h.text_eq, h.arity_eq, h.debugText_eq]
  | _ => rfl

namespace Session

/-- The answer as the host sees it. All but values is seen as it is. -/
def Answer.seen : Answer → Answer ⊕ Option Shown
  | value v => .inr (v.map Value.shown)
  | answer => .inl answer

/-- What the host sees after a step: the answer, what the step has written, and how many names are
bound in the global scope. -/
structure Sight where
  answer : Answer ⊕ Option Shown
  written : Array Write
  globals : Nat

/-- What the host sees after a step. -/
def sight (moment : Answer × Machine) : Sight :=
  ⟨moment.1.seen, moment.2.written, moment.2.globalCount⟩

/-- What the host sees of a session, step by step, unless the fuel does not suffice. -/
def sights (fuel : Nat) (m : Machine) (steps : List Step) : Option (List Sight) :=
  (perform fuel m steps).map (List.map sight)

/-- Answers that are alike up to nothing but scopes look the same. -/
theorem Answer.Like.seen_eq {a a' : Answer} (h : a.Like .same ρ a') : a.seen = a'.seen := by
  cases h with
  | done => rfl
  | @report r r' hdiagnostics =>
    -- Diagnostics of equal tokens are equal.
    have heq : r.diagnostics = r'.diagnostics := by
      rw [← List.forall₂_eq_eq_eq]
      exact hdiagnostics.imp fun _ _ hd => hd.eq
    obtain ⟨diagnostics⟩ := r
    obtain rfl : diagnostics = r'.diagnostics := heq
    rfl
  | forced errors he =>
    cases he with
    | none => rfl
    | some he => rw [he.eq]
  | failed he => rw [he.eq]
  | value hv =>
    cases hv with
    | none => rfl
    | some hv => exact congrArg (fun v => Sum.inr (some v)) hv.shown_eq
  | equal same => rfl

theorem MomentLike.sight_eq {x y : Answer × Machine}
    (hglobals : ρ.Pairs Machine.globals Machine.globals) (h : MomentLike .same ρ x y) :
    sight x = sight y := by
  obtain ⟨σ, hle, hanswer, hmachine⟩ := h
  have hcount : x.2.globalCount = y.2.globalCount := hmachine.store.size_eq (hle _ _ hglobals)
  simp only [sight, hanswer.seen_eq, hmachine.written, hcount]

/-! ## A machine after a reset -/

variable {m : Machine} {clock : Clock}

/-- After a reset, a machine is like a new one under the pairing of the global scopes alone, so that
nothing from before the reset counts. -/
theorem fresh_reset_like (h : m.store.Rooted) (hclock : m.clock.Alike clock) :
    (fresh m.reset).Like L .roots (.initial clock) where
  store := by
    obtain ⟨s, hs, hnone⟩ := h
    -- The cleared scope is empty and lies in no other one, just as the scope of a new machine.
    have hcleared : (m.store.clear Machine.globals).scope? Machine.globals = some ⟨[], none⟩ := by
      rw [Store.clear, Store.scope?_modify, if_pos rfl, hs, ← hnone]
      rfl
    exact provideNatives_like (m := { m with store := m.store.clear Machine.globals })
      (Store.like_of_empty hcleared rfl) ⟨rfl, rfl⟩
  scope := ⟨rfl, rfl⟩
  clock := by
    simp only [fresh, Machine.reset_clock]
    exact hclock
  written := rfl

/-- Every step starts afresh, the first one too. -/
theorem perform_fresh (fuel : Nat) (m : Machine) (steps : List Step) :
    perform fuel (fresh m) steps = perform fuel m steps := by
  cases steps <;> rfl

/-- From a reset on, the host sees what it would see of a new machine. -/
theorem sights_reset (h : m.store.Rooted) (hclock : m.clock.Alike clock) (fuel : Nat)
    (steps : List Step) : sights fuel m.reset steps = sights fuel (.initial clock) steps := by
  have hsteps : List.Forall₂ (Step.Like .same) steps steps :=
    List.forall₂_same.2 fun step _ => .refl step
  have hglobals : Pairing.roots.Pairs Machine.globals Machine.globals := ⟨rfl, rfl⟩
  unfold sights
  rw [← perform_fresh fuel m.reset]
  exact perform_map_eq (fun _ _ => MomentLike.sight_eq hglobals) hsteps
    (fresh_reset_like h hclock) hglobals

/-- The natives are bound again, and nothing else. -/
theorem globalCount_reset (h : m.store.Rooted) : m.reset.globalCount = Native.all.length :=
  (fresh_reset_like (L := .same) h fun _ => rfl).store.size_eq ⟨rfl, rfl⟩

/-- What is seen of a session is seen step by step. -/
theorem sights_cons {fuel : Nat} {step : Step} {answer : Answer} {after : Machine}
    (h : step.perform fuel (fresh m) = some (answer, after)) (steps : List Step) :
    sights fuel m (step :: steps) =
      (sights fuel after steps).map (.cons (sight (answer, after))) := by
  simp only [sights, perform, h, Option.bind_eq_bind, Option.bind_some]
  cases perform fuel after steps <;> rfl

end Session

open Session in
/-- Whatever has happened to a machine before it is reset, the host cannot tell it afterwards from a
new machine, as long as their clocks give the same readings. The reset itself leaves the natives
only. From there on every step of every session has the same answer on both, writes the same and
leaves the same number of global names. -/
theorem reset_is_unseen {m : Machine} {clock : Clock} (h : Reachable (fun _ => True) m)
    (hclock : m.clock.Alike clock) (fuel : Nat) (steps : List Step) :
    sights fuel m (.reset :: steps) = (sights fuel (.initial clock) steps).map
      (.cons ⟨.inl .done, #[], Native.all.length⟩) := by
  have hsight : sight (.done, (fresh m).reset) = ⟨.inl .done, #[], Native.all.length⟩ := by
    simp only [sight, globalCount_reset h.fresh.rooted]
    rfl
  rw [sights_cons rfl, sights_reset h.fresh.rooted hclock, hsight]

open Session in
/-- A variable that has been declared can be declared again after a reset, even though the scope of
the block that ran before it is still there. -/
theorem reset_forgets_variable : ∃ m, Reachable (fun _ => True) m ∧ m.globalCount = 4 ∧
    m.reset.store.scopes.size = 2 ∧
    sights 0 m [.reset, .interpret [.var ⟨.identifier, "a", none, 1⟩ none]] =
      some [⟨.inl .done, #[], 3⟩, ⟨.inl .done, #[], 4⟩] := by
  have hm : Reachable (fun _ => True) _ := .step (.initial (.startingAt 0)) trivial
    (rfl : (Step.interpret [.block [], .var ⟨.identifier, "a", none, 1⟩ none]).perform 0 _ =
      some (.done, _))
  have hclock : Clock.Alike _ (.startingAt 0) := fun _ => rfl
  refine ⟨_, hm, rfl, rfl, ?_⟩
  rw [reset_is_unseen hm hclock]
  rfl

end Treewalk
