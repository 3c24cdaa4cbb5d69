import Treewalk.Proofs.ScopeEffects
import Treewalk.Proofs.Views.Resemblance

/-!
# Loops with three clauses

The parser turns a loop with three clauses into blocks and a loop with a condition. That opens a
scope in every round for the body and the increment. `ForLoop.run` says what such a loop does
without these scopes: one scope at most is opened, for the initializer, and everything else happens
there. The two come to the same, because the body of a loop is a statement and declares nothing
where it stands: a block of statements that declare nothing resembles these statements without the
block (`block_resembles`).
-/

namespace Treewalk

/-- A loop with three clauses, as it is written. -/
structure ForLoop where
  first : Option Stmt
  cond : Option Expr
  increment : Option Expr
  body : Stmt

namespace ForLoop

/-- The statement that stands for the loop. -/
def desugared (l : ForLoop) : Stmt :=
  .forLoop l.first l.cond l.increment l.body

/-- The value that decides whether there is another round. -/
def condition (fuel : Nat) (l : ForLoop) : Run Value :=
  match l.cond with
  | none => pure (.bool true)
  | some e => evaluate (call fuel) e

/-- Round after round in the current scope: the condition, the body, the increment. -/
def rounds (fuel : Nat) (l : ForLoop) : (bound : Nat) → Run Flow
  | 0 => Run.exhausted
  | bound + 1 => do
    let v ← l.condition fuel
    if v.truthy then
      match ← execute (call fuel) fuel l.body with
      | .returned v => pure (.returned v)
      | .next => do
        let _ ← evaluateOption (call fuel) l.increment
        l.rounds fuel bound
    else
      pure .next

/-- An initializer in the current scope, and the rounds behind it. -/
def roundsAfter (fuel : Nat) (l : ForLoop) (first : Stmt) : Run Flow := do
  match ← execute (call fuel) fuel first with
  | .returned v => pure (.returned v)
  | .next => l.rounds fuel fuel

/-- What the loop does. If there is an initializer, a scope is opened for it, and the rounds follow
there. -/
def run (fuel : Nat) (l : ForLoop) : Run Flow :=
  match l.first with
  | none => l.rounds fuel fuel
  | some first => do
    let scope ← Run.openScope (← Run.currentScope)
    Run.within scope (l.roundsAfter fuel first)

end ForLoop

/-! ## Parsing -/

namespace Parser

section
variable {σ ε : Type}

/-- Parsers that differ in the last step only, by a function of the result. -/
theorem result_bind {α β γ : Type} {g : β → γ} {f : α → Parser σ ε β} {f' : α → Parser σ ε γ}
    (p : Parser σ ε α) (h : ∀ a s, (f' a s).result = (f a s).result.map g) (s : σ) :
    ((p >>= f') s).result = ((p >>= f) s).result.map g := by
  cases hp : (p s).result with
  | error e => rw [bind_error hp, bind_error hp]; rfl
  | ok a => rw [bind_ok hp, bind_ok hp]; exact h a _

variable [Reader σ ε]

/-- The clauses and the body of a loop with three clauses, behind its first word. -/
def forClauses (expression : Parser σ ε Expr) (statement : Parser σ ε Stmt) :
    Parser σ ε ForLoop := do
  let _ ← expect .leftParen "Expect '(' after 'for'."
  let first ← initializer expression
  let cond ← clause .semicolon expression
  let _ ← expect .semicolon "Expect ';' after loop condition."
  let increment ← clause .rightParen expression
  let _ ← expect .rightParen "Expect ')' after for clauses."
  let body ← statement
  pure ⟨first, cond, increment, body⟩

/-- A loop with three clauses is read as its clauses, and turned into other statements then. -/
theorem forStatement_result (expression : Parser σ ε Expr) (statement : Parser σ ε Stmt) (s : σ) :
    (forStatement expression statement s).result =
      (forClauses expression statement s).result.map ForLoop.desugared := by
  refine result_bind _ (fun _ => result_bind _ fun _ => result_bind _ fun _ => ?_) s
  refine result_bind _ fun _ => result_bind _ fun _ => result_bind _ fun _ => ?_
  exact result_bind _ fun _ _ => rfl

/-- The body of the loop is a statement, which declares nothing where it stands. -/
theorem declared_of_forClauses [View σ] {expression : Parser σ ε Expr} {bound : Nat} {s : σ}
    {l : ForLoop} (h : (forClauses expression (statement bound) s).result = .ok l) :
    l.body.declared = [] := by
  -- Nothing need be known about the clauses.
  have hany : ∀ {α : Type} (p : Parser σ ε α), p.Gives (fun _ => True) fun _ => True :=
    fun _ _ _ => ⟨fun _ _ => trivial, fun _ _ => trivial⟩
  have hbody : (statement bound : Parser σ ε Stmt).Gives (fun _ => True)
      fun body => body.declared = [] :=
    fun _ _ => ⟨fun _ _ => trivial, fun _ => declared_of_statement⟩
  have hgives : (forClauses expression (statement bound)).Gives (fun _ => True)
      fun l => l.body.declared = [] := by
    refine (hany _).bind fun _ _ => (hany _).bind fun _ _ => (hany _).bind fun _ _ => ?_
    refine (hany _).bind fun _ _ => (hany _).bind fun _ _ => (hany _).bind fun _ _ => ?_
    exact hbody.bind fun body hbody => .pure hbody
  exact (hgives s fun _ _ => trivial).2 l h

end

end Parser

/-! ## Rounds -/

theorem executeAll_singleton (apply : Callable → List Value → Run Value) (fuel : Nat) (s : Stmt) :
    executeAll apply fuel [s] = execute apply fuel s := by
  funext m
  rw [executeAll, Run.bind_apply]
  cases execute apply fuel s m with
  | ok flow after => cases flow <;> simp only [Outcome.bind, executeAll] <;> rfl
  | failed e after => rfl
  | outOfFuel => rfl

namespace ForLoop

/-- What is executed in a round. -/
def round (l : ForLoop) : List Stmt :=
  l.body :: l.increment.toList.map .expr

theorem condition_eq (fuel : Nat) (l : ForLoop) : l.condition fuel =
    evaluate (call fuel) (l.cond.getD (.literal (.bool true))) := by
  unfold condition
  cases l.cond with
  | none => simp only [Option.getD_none, evaluate]; rfl
  | some e => rfl

/-- The increment is evaluated for its effects, if there is one. -/
theorem executeAll_increment (fuel : Nat) (e : Option Expr) :
    executeAll (call fuel) fuel (e.toList.map .expr) =
      evaluateOption (call fuel) e >>= fun _ => pure .next := by
  cases e with
  | none => simp only [Option.toList_none, List.map_nil, executeAll]; rfl
  | some e =>
    simp only [Option.toList_some, List.map_cons, List.map_nil, executeAll_singleton, execute]
    rfl

/-- Rounds as repetition of a list of statements: the body and, if it has not returned, the
increment. -/
theorem rounds_eq (fuel : Nat) (l : ForLoop) (bound : Nat) : l.rounds fuel bound =
    repeatWhile (evaluate (call fuel) (l.cond.getD (.literal (.bool true))))
      (executeAll (call fuel) fuel l.round) bound := by
  induction bound with
  | zero => rfl
  | succ bound ih =>
    rw [rounds, repeatWhile, condition_eq, ih]
    congr 1
    funext v
    split
    · -- The increment is passed over if the body has returned.
      funext m
      rw [round, executeAll, executeAll_increment, Run.bind_apply, Run.bind_apply, Run.bind_apply]
      cases execute (call fuel) fuel l.body m with
      | ok flow after =>
        cases flow with
        | next =>
          simp only [Outcome.bind, Run.bind_apply]
          cases evaluateOption (call fuel) l.increment after <;> rfl
        | returned v => rfl
      | failed e after => rfl
      | outOfFuel => rfl
    · rfl

end ForLoop

/-! ## Blocks that declare nothing -/

/-- The view looks through one more scope. -/
def View.lookThrough (V : View) (k o : ScopeId) (ho : V.through o = o) (hne : o ≠ k)
    (hk : ∀ i, i ≠ k → V.through i ≠ k) : View where
  hidden := V.hidden
  through i := if i = k then o else V.through i
  through_through i := by
    by_cases hi : i = k
    · simp only [hi, if_true, hne, if_false, ho]
    · simp only [hi, hk i hi, if_false, V.through_through]

section
variable {V : View} {st : Store} {o : ScopeId} {ho : V.through o = o} {hne : o ≠ st.scopes.size}
  {hk : ∀ i, i ≠ st.scopes.size → V.through i ≠ st.scopes.size}

/-- A scope that has just been opened can be looked through: it binds nothing, and nothing leads
to it. -/
theorem Store.Fits.lookThrough (h : st.Fits V) (hshows : V.Shows st.scopes.size o) :
    (st.openScope (some o)).2.Fits (V.lookThrough st.scopes.size o ho hne hk) := by
  refine ⟨fun i s hi hs => ?_, fun i hle => ?_⟩
  · rw [size_openScope]
    rw [scope?_openScope] at hs
    split at hs
    · subst i
      cases hs
      refine ⟨fun b hb => (by cases hb), fun o' ho' => ?_, fun hnone => (by cases hnone),
        fun _ => ?_⟩
      · cases ho'
        exact ⟨hshows.lt, hshows.visible⟩
      · simp only [View.lookThrough, if_true]
    · rename_i hne'
      have hfits := h.scopes i s hi hs
      refine ⟨fun b hb c hc => ?_, hfits.enclosing, hfits.outermost, ?_⟩
      · obtain ⟨hshows', hthrough⟩ := hfits.values b hb c hc
        refine ⟨⟨Nat.lt_succ_of_lt hshows'.lt, hshows'.visible⟩, ?_⟩
        exact (if_neg (Nat.ne_of_lt hshows'.lt)).trans hthrough
      · simp only [View.lookThrough, hne', if_false]
        exact hfits.transparent
  · rw [size_openScope] at hle
    have hne' : i ≠ st.scopes.size := by omega
    obtain ⟨hvisible, hthrough⟩ := h.unopened i (by omega)
    exact ⟨hvisible, (if_neg hne').trans hthrough⟩

/-- The empty scope that was added lies between others, and with the new view one looks past it.
Every other link leads to an older scope, of which the view says what it said. -/
theorem Store.through_lookThrough (h : st.Fits V) (hvisible : ∀ i, ¬V.hidden i) :
    (st.openScope (some o)).2.through (V.lookThrough st.scopes.size o ho hne hk) =
      ((st.through V).openScope (some o)).2 := by
  refine ext_scope? fun i => ?_
  rw [scope?_through, scope?_openScope, scope?_openScope, size_through, scope?_through]
  split
  · simp only [Option.map_some, Scope.through, View.lookThrough, hne, if_false, ho]
  · cases hs : st.scope? i with
    | none => rfl
    | some s =>
      have henclosing : s.enclosing.map (V.lookThrough st.scopes.size o ho hne hk).through =
          s.enclosing.map V.through := by
        refine Option.map_congr fun o' ho' => if_neg (Nat.ne_of_lt ?_)
        exact Nat.lt_trans ((h.scopes i s (hvisible i) hs).enclosing o' ho').1
          (lt_size_of_scope? hs)
      simp only [Option.map_some, Scope.through, henclosing]

end

/-- A machine is still like another one when that one has opened a scope. -/
theorem Machine.Like.opened {L : Likeness} {σ : Pairing} {m m' : Machine} (h : m.Like L σ m')
    (o : ScopeId) : m.Like L σ (m'.opened o) where
  store i i' hpair := by
    obtain ⟨s, s', hs, hs', hlike⟩ := h.store i i' hpair
    exact ⟨s, s', hs, Store.scope?_openScope_of_some hs' _, hlike⟩
  scope := h.scope
  clock := h.clock
  written := h.written

/-- The machine in a scope that it has opened inside the current one. -/
def Machine.entered (m : Machine) : Machine :=
  (m.opened m.scope).inScope m.nextScope

theorem Machine.nextScope_entered (m : Machine) : m.entered.nextScope = m.nextScope + 1 :=
  m.nextScope_opened m.scope

theorem execute_block (apply : Callable → List Value → Run Value) (fuel : Nat) (ss : List Stmt)
    (m : Machine) : execute apply fuel (.block ss) m =
      (executeAll apply fuel ss m.entered).mapMachine (·.inScope m.scope) := by
  rw [execute]
  rfl

namespace Machine.Resembles

variable {n : Nat} {V : View} {σ τ : Pairing} {m m' : Machine}

/-- A scope is opened in one of two machines that resemble each other. A view that looks through it
shows the same as before. -/
theorem enter (h : m.Resembles n V σ m') : ∃ V' : View, (∀ i, ¬V'.hidden i) ∧
    (∀ i < n, V'.through i = i) ∧ V'.through m'.nextScope = m'.scope ∧ m'.entered.Fits V' ∧
    m.Like .same σ (m'.entered.through V') := by
  have hcur : V.through m'.scope = m'.scope := h.rests.scope
  have hne : m'.scope ≠ m'.nextScope := Nat.ne_of_lt h.fits.scope.lt
  -- So far nothing is seen as the new scope, neither the scopes that there are nor later ones.
  have hk : ∀ i, i ≠ m'.nextScope → V.through i ≠ m'.nextScope := by
    intro i hi
    by_cases hlt : i < m'.nextScope
    · exact Nat.ne_of_lt (Nat.lt_of_le_of_lt (h.fits.store.through_le (h.visible i)) hlt)
    · rw [(h.fits.store.unopened i (Nat.le_of_not_lt hlt)).2]
      exact hi
  let V' := V.lookThrough m'.nextScope m'.scope hcur hne hk
  have hnew : V'.through m'.nextScope = m'.scope := if_pos rfl
  have hold : ∀ i < n, V'.through i = i := fun i hi =>
    (if_neg (Nat.ne_of_lt (h.lt_nextScope hi))).trans (h.old i hi).1
  have hfits : m'.entered.Fits V' := by
    refine ⟨h.fits.store.lookThrough h.fits.scope, ?_, h.visible _⟩
    rw [nextScope_entered]
    exact Nat.lt_succ_self _
  have hthrough : m'.entered.through V' = (m'.through V).opened m'.scope := by
    have hstore : m'.entered.store.through V' = ((m'.through V).opened m'.scope).store :=
      Store.through_lookThrough h.fits.store h.visible
    change Machine.mk (m'.entered.store.through V') (V'.through m'.nextScope) _ _ _ = _
    rw [hstore, hnew, ← hcur]
    rfl
  refine ⟨V', h.visible, hold, hnew, hfits, ?_⟩
  rw [hthrough]
  exact h.like.opened _

/-- Behind the block the scope around it is current again. -/
theorem leave {V' : View} {after after' : Machine} (h : m.Resembles n V σ m') (hle : σ ≤ τ)
    (hvisible : ∀ i, ¬V'.hidden i) (hold : ∀ i < n, V'.through i = i)
    (hnew : V'.through m'.nextScope = m'.scope) (hbecomes : m'.entered.Becomes V' after')
    (hlike : after.Like .same τ (after'.through V')) :
    after.Resembles n V' τ (after'.inScope m'.scope) := by
  -- The view looks through the scope of the block to the one around it.
  have hscope : V'.through m'.scope = V'.through after'.scope := by
    rw [hbecomes.scope]
    refine Eq.trans ?_ hnew.symm
    rw [h.scope.2]
    exact hold _ h.scope.1
  have hback : (after'.inScope m'.scope).through V' = after'.through V' := by
    simp only [through, Machine.inScope, hscope]
  have hlt : m'.scope < after'.nextScope := by
    have hle := hbecomes.nextScope_le
    rw [nextScope_entered] at hle
    exact Nat.lt_of_lt_of_le (Nat.lt_succ_of_lt h.fits.scope.lt) hle
  refine h.of_like hle hvisible hold ⟨hbecomes.fits.store, hlt, hvisible _⟩ rfl ?_
  rw [hback]
  exact hlike

end Machine.Resembles

/-- Statements that declare nothing do in a block what they do without it. -/
theorem block_resembles {n : Nat} (k : Nat) {ss : List Stmt} (hss : Stmt.declaredAll ss = []) :
    (executeAll (call k) k ss).Resembles n Flow.Resembles (execute (call k) k (.block ss)) := by
  intro V σ m m' h
  obtain ⟨V', hvisible, hold, hnew, hfits, hlike⟩ := h.enter
  have hsees : (executeAll (call k) k ss m).Sees V' σ m'.entered (Flow.Like .same) (Flow.Fits V')
      (executeAll (call k) k ss m'.entered) :=
    Run.sees hlike hfits (executeAll_like (call_like k) ss (Stmt.likeAll_refl ss))
      (executeAll_respects (call_respects V' k) ss (.inr hss))
  rw [execute_block]
  generalize executeAll (call k) k ss m = o at hsees
  generalize executeAll (call k) k ss m'.entered = o' at hsees
  cases hsees with
  | ok hle hlike hbecomes hflow hfits =>
    exact .ok (h.leave hle hvisible hold hnew hbecomes hlike) ⟨hflow, hfits⟩
  | failed hle hlike hbecomes => exact .failed (h.leave hle hvisible hold hnew hbecomes hlike)
  | outOfFuel => exact .outOfFuel

/-! ## Loops -/

namespace ForLoop

variable {n : Nat}

/-- The rounds resemble the loop with a condition that the parser makes of them. -/
theorem rounds_resembles (fuel : Nat) {l : ForLoop} (h : l.body.declared = []) :
    (l.rounds fuel fuel).Resembles n Flow.Resembles
      (execute (call fuel) fuel { l with first := none }.desugared) := by
  have hloop : ∀ {s : Stmt}, (executeAll (call fuel) fuel l.round).Resembles n Flow.Resembles
      (execute (call fuel) fuel s) → (l.rounds fuel fuel).Resembles n Flow.Resembles
        (execute (call fuel) fuel (.loop (l.cond.getD (.literal (.bool true))) s)) := by
    intro s hs
    rw [rounds_eq, execute]
    exact repeatWhile_resembles (evaluate_resembles fuel _) hs fuel
  obtain ⟨first, cond, increment, body⟩ := l
  -- A round becomes a block only if there is an increment to put behind the body.
  cases increment with
  | none =>
    refine hloop ?_
    change (executeAll (call fuel) fuel [body]).Resembles n _ _
    rw [executeAll_singleton]
    exact execute_resembles fuel body
  | some e =>
    have hround : Stmt.declaredAll [body, .expr e] = [] := by
      change body.declared = [] at h
      simp only [Stmt.declaredAll, Stmt.declared, h, List.append_nil]
    exact hloop (block_resembles fuel hround)

/-- What happens in the scope of the initializer: it is executed, and then the loop without it. -/
theorem roundsAfter_resembles (fuel : Nat) {l : ForLoop} (h : l.body.declared = [])
    (first : Stmt) : (l.roundsAfter fuel first).Resembles n Flow.Resembles
      (executeAll (call fuel) fuel [first, { l with first := none }.desugared]) := by
  rw [executeAll, executeAll_singleton]
  refine .bind (execute_resembles fuel first) fun V σ m m' flow flow' hm hflow => ?_
  obtain ⟨hlike, hfits⟩ := hflow
  cases hlike with
  | next => exact rounds_resembles fuel h V σ m m' hm
  | returned hv => exact .ok hm ⟨.returned hv, hfits⟩

end ForLoop

/-- Back in an old scope, fewer scopes are asked to be the same. -/
theorem Outcome.Resembles.inScope {α : Type} {n k : Nat}
    {R : View → Pairing → Nat → α → α → Prop} {o o' : Outcome α} (h : o.Resembles k R o')
    (hle : n ≤ k) {i : ScopeId} (hi : i < n) :
    (o.mapMachine (·.inScope i)).Resembles n R (o'.mapMachine (·.inScope i)) := by
  have hi' := Nat.lt_of_lt_of_le hi hle
  cases h with
  | ok h hab => exact .ok ((h.inScope hi').mono hle hi) hab
  | failed h => exact .failed ((h.inScope hi').mono hle hi)
  | outOfFuel => exact .outOfFuel

/-- A scope that is entered lies in the current one. -/
theorem Machine.WellFormed.entered {m : Machine} (h : m.WellFormed) : m.entered.WellFormed := by
  have hfits := wellFormed_iff_fits.1 h
  have hopened := Becomes.opened hfits hfits.scope
  refine wellFormed_iff_fits.2 ⟨hopened.fits.store, ?_, id⟩
  rw [nextScope_entered]
  exact Nat.lt_succ_self _

/-- What a loop with three clauses does and what the statement does that the parser makes of it come
to the same. -/
theorem ForLoop.run_resembles (fuel : Nat) {l : ForLoop} (h : l.body.declared = []) {m : Machine}
    (hm : m.WellFormed) : (l.run fuel m).Resembles m.nextScope Flow.Resembles
      (execute (call fuel) fuel l.desugared m) := by
  obtain ⟨first, cond, increment, body⟩ := l
  cases first with
  | none => exact rounds_resembles fuel h _ _ m m hm.resembles
  | some first =>
    have hinside := roundsAfter_resembles fuel h first _ _ _ _ hm.entered.resembles
    change ((_ : Outcome Flow).mapMachine (·.inScope m.scope)).Resembles _ _
      (execute (call fuel) fuel (.block [first, _]) m)
    rw [execute_block]
    exact hinside.inScope (by rw [Machine.nextScope_entered]; exact Nat.le_succ _) hm.current

/-- A loop with three clauses means what its clauses say.

* When the parser accepts such a loop, at a cursor or with any other reader that can be seen as a
  list of tokens, it has read its clauses and its body. The statement that it
  makes of them then ends, from every well-formed machine, as the loop itself does: normally, with
  the same value up to the numbers of scopes, or with the same error. And the machines left resemble
  each other: they are the same up to the numbers of new scopes and up to empty ones in between.
* Machines that resemble each other have written the same, are in the same scope and bind the same
  in the scopes that were there before, and they do so again after whatever comes next: another
  task, in any of these scopes, or any session. -/
theorem for_loops_mean_their_clauses :
    (∀ (σ ε : Type) [Parser.Reader σ ε] [Parser.View σ] bound bound' (state : σ) statement,
      (Parser.forStatement (Parser.expression bound) (Parser.statement bound') state).result =
        .ok statement →
      ∃ l : ForLoop,
        (Parser.forClauses (Parser.expression bound) (Parser.statement bound') state).result =
          .ok l ∧
        ∀ m : Machine, m.WellFormed → ∀ fuel, (l.run fuel m).Resembles m.nextScope Flow.Resembles
          (execute (call fuel) fuel statement m)) ∧
    ∀ n V σ (m m' : Machine), m.Resembles n V σ m' →
      m.written = m'.written ∧ m.scope = m'.scope ∧
      (∀ i < n, (m.store.scope? i).map Scope.shown = (m'.store.scope? i).map Scope.shown) ∧
      (∀ i < n, (m.inScope i).Resembles n V σ (m'.inScope i)) ∧
      (∀ fuel (task task' : Task), task.Like .same σ task' →
        (∀ v ∈ task'.values, v.Fits V m'.nextScope) →
        (task.run fuel m).Resembles n (fun V σ k => List.Forall₂ (Value.Resembles V σ k))
          (task'.run fuel m')) ∧
      ∀ fuel steps, Session.sights fuel m steps = Session.sights fuel m' steps := by
  constructor
  · intro σ ε _ _ bound bound' state statement hstatement
    rw [Parser.forStatement_result] at hstatement
    cases hl : (Parser.forClauses (Parser.expression bound) (Parser.statement bound') state).result
      with
    | error e => rw [hl] at hstatement; cases hstatement
    | ok l =>
      rw [hl] at hstatement
      cases hstatement
      exact ⟨l, rfl, fun m hm fuel => l.run_resembles fuel (Parser.declared_of_forClauses hl) hm⟩
  · intro n V σ m m' h
    exact ⟨h.like.written, h.scope.2.symm, fun i hi => h.shown_eq hi, fun i hi => h.inScope hi,
      fun fuel task task' htask hvalues => h.run_task fuel htask hvalues, h.sights_eq⟩

/-- The loop `for (var i;; null) return;` returns in its first round. The statement that the parser
makes of it opens one scope more, in which nothing is bound. -/
theorem for_loops_mean_their_clauses_return :
    let keyword : Token := ⟨.returnWord, "return", none, 1⟩
    let name : Token := ⟨.identifier, "i", none, 1⟩
    let cursor : Parser.Cursor := ⟨#[⟨.leftParen, "(", none, 1⟩, ⟨.varWord, "var", none, 1⟩, name,
      ⟨.semicolon, ";", none, 1⟩, ⟨.semicolon, ";", none, 1⟩, ⟨.nullWord, "null", none, 1⟩,
      ⟨.rightParen, ")", none, 1⟩, keyword, ⟨.semicolon, ";", none, 1⟩, .endOfInput 1], 0, true⟩
    let l : ForLoop :=
      ⟨some (.var name none), none, some (.literal .null), .ret keyword none⟩
    let m := Machine.initial (.startingAt 0)
    (Parser.forStatement (Parser.expression 2) (Parser.statement 2) cursor).result =
      .ok l.desugared ∧
    ∃ after after', l.run 1 m = .ok (.returned .null) after ∧ after.nextScope = 2 ∧
      execute (call 1) 1 l.desugared m = .ok (.returned .null) after' ∧ after'.nextScope = 3 ∧
      ∃ V σ, after.Resembles 1 V σ after' ∧
        (after.store.scope? 0).map Scope.shown = (after'.store.scope? 0).map Scope.shown := by
  intro keyword name cursor l m
  have hl : (Parser.forClauses (Parser.expression 2) (Parser.statement 2) cursor).result =
      .ok l := by
    simp only [cursor, l, keyword, name]
    cbv
  have hstatement : (Parser.forStatement (Parser.expression 2) (Parser.statement 2) cursor).result =
      .ok l.desugared := by
    rw [Parser.forStatement_result, hl]
    rfl
  obtain ⟨after, hrun, hsize⟩ : ∃ after, l.run 1 m = .ok (.returned .null) after ∧
      after.nextScope = 2 := by
    refine ⟨_, rfl, ?_⟩
    rfl
  obtain ⟨after', hrun', hsize'⟩ : ∃ after', execute (call 1) 1 l.desugared m =
      .ok (.returned .null) after' ∧ after'.nextScope = 3 := by
    refine ⟨_, rfl, ?_⟩
    rfl
  have hm : m.WellFormed := Machine.wellFormed_iff_fits.2 (Machine.initial_fits _)
  have hone : m.nextScope = 1 := rfl
  obtain ⟨hloops, hseen⟩ := for_loops_mean_their_clauses
  obtain ⟨l', hl', hresembles⟩ := hloops _ _ 2 2 cursor _ hstatement
  rw [hl] at hl'
  cases hl'
  have houtcomes := hresembles m hm 1
  rw [hrun, hrun', hone] at houtcomes
  cases houtcomes with
  | @ok V σ _ _ _ _ h =>
    exact ⟨hstatement, after, after', hrun, hsize, hrun', hsize', V, σ, h,
      (hseen 1 V σ after after' h).2.2.1 0 Nat.zero_lt_one⟩

end Treewalk
