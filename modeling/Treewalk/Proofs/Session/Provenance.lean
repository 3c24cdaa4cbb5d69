import Treewalk.Proofs.Diagnostics
import Treewalk.Proofs.Machine.Errors

/-!
# Where diagnostics point

Every diagnostic of a session points at source text. What is wrong with the spelling or the syntax
of a unit is found in that unit. A runtime error is raised at a token of a unit that the session has
run, of the kind that the error is about. It need not be the unit that is run now: a function is
executed long after the unit that declared it.
-/

namespace Treewalk

/-- The error is at a token of the kind that it is about. -/
def RuntimeError.Fitting : RuntimeError → Prop
  | undefinedVariable name => name.kind = .identifier
  | alreadyDefined name => name.kind = .identifier
  | unknownOperator _ => False
  | operandMustBeNumber op => op.kind = .minus
  | operandsMustBeNumbers op => op.kind ∈ Operator.arithmeticKinds
  | invalidAddOperands op => op.kind = .plus
  | notCallable paren => paren.kind = .rightParen
  | arityMismatch paren expected got => paren.kind = .rightParen ∧ expected ≠ got

/-! ## Errors of trees read from tokens -/

namespace Activity

variable {Q : Token → Prop} {a : Activity} {e : RuntimeError}

/-- An error is raised at the token that the activity is about. In trees that were read from tokens,
that token is of the right kind and one of those tokens. -/
theorem Raises.fitting (h : a.Raises e) (hobeys : a.Obeys (.read Q)) : e.Fitting ∧ Q e.token := by
  have htask := hobeys.task
  cases h with
  | get h =>
    obtain rfl := Store.get_error h
    exact htask
  | assign _ h =>
    obtain rfl := Store.binder_error h
    exact htask.1
  | unary _ h =>
    obtain ⟨rfl, hkind⟩ | ⟨-, hkind⟩ := Operator.unary_error h
    · exact ⟨hkind, htask.1.2⟩
    · -- The parser does not put other tokens in the place of an operator.
      exact absurd htask.1.1 hkind
  | binary _ _ h =>
    obtain ⟨rfl, hkind⟩ | ⟨rfl, hkind⟩ | ⟨-, hkind⟩ := Operator.binary_error h
    · exact ⟨hkind, htask.2.1.2⟩
    · exact ⟨hkind, htask.2.1.2⟩
    · exact absurd htask.2.1.1 hkind
  | logical _ h => exact absurd htask.2.1.1 (Operator.decided_error h).2
  | callee _ _ h =>
    obtain ⟨-, ⟨hkind, hQ⟩, -⟩ := htask
    obtain rfl | ⟨expected, hne, rfl⟩ := Operator.callee_error h
    · exact ⟨hkind, hQ⟩
    · exact ⟨⟨hkind, hne⟩, hQ⟩
  | var _ h =>
    obtain ⟨rfl, -⟩ := Store.checkFree_error h
    exact htask.1
  | function h =>
    obtain ⟨rfl, -⟩ := Store.checkFree_error h
    exact htask.1
  | params h =>
    obtain ⟨p, hp, rfl⟩ := bindParams_error h
    exact htask.1.1 p hp

/-- The same holds of every error that an activity leads to, because what it leads to was read as
well. -/
theorem Traces.fitting (h : a.Traces e) (hobeys : a.Obeys (.read Q)) : e.Fitting ∧ Q e.token := by
  obtain ⟨b, hleads, hraises⟩ := h
  exact hraises.fitting (hobeys.of_leads hleads)

end Activity

/-! ## Errors in a unit -/

/-- An error of the parser is at a token of the text. Scanning always ends with an end of input, so
that none has to be assumed. -/
theorem token_mem_of_mem_errors {source : String} {e : SyntaxError}
    (h : e ∈ (parse (scan source).tokens).errors) : e.token ∈ (scan source).tokens := by
  obtain ⟨found, herrors, hfound⟩ := parse_findings (scan source).tokens
  rw [herrors] at h
  obtain ⟨f, hf, rfl⟩ := List.mem_map.1 h
  exact List.mem_of_getElem? (scan_getElem?_of_finding hfound hf)

/-- What is found before anything is executed is on a line of the text. -/
theorem isLineOf_of_mem_preliminary {source : String} {d : Diagnostic}
    (h : d ∈ preliminaryDiagnostics source) : d.kind ≠ .runtime ∧ IsLineOf source d.line := by
  obtain hlexical | hsyntactic := List.mem_append.1 h
  · obtain ⟨e, he, rfl⟩ := List.mem_map.1 hlexical
    exact ⟨nofun, isLineOf_of_mem_errors he⟩
  · obtain ⟨e, he, rfl⟩ := List.mem_map.1 hsyntactic
    exact ⟨nofun, isLineOf_of_mem_tokens (token_mem_of_mem_errors he)⟩

/-! ## Sessions that run units -/

namespace Session

/-- The unit that the step runs. -/
def Step.unit? : Step → Option String
  | run source => some source
  | _ => none

/-- The step runs one of these units, or resets. -/
def Step.RunsOneOf (units : List String) (step : Step) : Prop :=
  step = .reset ∨ ∃ u ∈ units, step = .run u

/-- The token is one of those of these units. -/
def IsTokenOf (units : List String) (t : Token) : Prop :=
  ∃ u ∈ units, t ∈ (scan u).tokens

variable {units : List String} {fuel : Nat} {m after : Machine}

/-- What a unit executes was read from its own tokens. -/
theorem Step.RunsOneOf.obeys {step : Step} (h : step.RunsOneOf units) {statements : List Stmt}
    (hexecutes : step.Executes statements) :
    Stmt.ObeysAll (.read (IsTokenOf units)) statements := by
  obtain rfl | ⟨u, hu, rfl⟩ := h
  · cases hexecutes
  · cases hexecutes with
    | run hparses =>
      rw [← hparses.statements_eq]
      exact parse_obeys fun t ht => ⟨u, hu, ht⟩

/-- The error that ends a unit is raised at a token of one of the units that have been run. -/
theorem Reachable.fitting (hm : Reachable (Step.RunsOneOf units) m) {source : String}
    (hsource : source ∈ units) {statements : List Stmt} (hparses : ParsesTo source statements)
    {e : RuntimeError}
    (he : (executeAll (call fuel) fuel statements (m.ready source)).error? = some e) :
    e.Fitting ∧ IsTokenOf units e.token := by
  have hstore : (m.ready source).store.Obeys (.read (IsTokenOf units)) := by
    -- The functions in the store were read from units as well, be it earlier ones.
    rw [(m.ready_alike source).store]
    exact hm.obeys fun _ _ hallowed => hallowed.obeys
  have hrun : Step.RunsOneOf units (.run source) := .inr ⟨source, hsource, rfl⟩
  exact (executeAll_traces (call_traces fuel) _ _ e he).fitting ⟨hrun.obeys (.run hparses), hstore⟩

/-- A step of a session is taken in a machine that the steps before it have reached. -/
theorem exists_reachable_of_perform {allowed : Step → Prop} {steps : List Step}
    {answers : List (Answer × Machine)} (hm : Reachable allowed m)
    (h : perform fuel m steps = some answers) {k : Nat} {step : Step} {answer : Answer}
    (hallowed : ∀ step ∈ steps.take k, allowed step) (hstep : steps[k]? = some step)
    (hanswer : answers[k]? = some (answer, after)) :
    ∃ before, Reachable allowed before ∧ step.perform fuel before = some (answer, after) := by
  induction steps generalizing m k answers with
  | nil => cases hstep
  | cons first steps ih =>
    simp only [perform, Option.bind_eq_bind, Option.bind_eq_some_iff] at h
    obtain ⟨⟨firstAnswer, next⟩, hfirst, rest, hrest, hanswers⟩ := h
    cases hanswers
    cases k with
    | zero =>
      cases hstep
      cases hanswer
      -- The step is taken with nothing written or logged, which is reachable too.
      exact ⟨fresh m, hm.fresh, hfirst⟩
    | succ k =>
      rw [List.take_succ_cons, List.forall_mem_cons] at hallowed
      exact ih (.step hm.fresh hallowed.1 hfirst) hrest hallowed.2 hstep hanswer

end Session

open Session in
/-- In a session that runs units and resets, every diagnostic of a run points at source text.

* What is wrong with the spelling or the syntax of the unit is on one of its lines, and every error
  in the syntax is at one of its tokens, so never at an end of input that was assumed.
* A runtime error, which is the one that is logged last, is at a token of a unit that the session
  has run so far, and so on one of the lines of that unit. The token is of the kind that the error
  is about. -/
theorem diagnostics_point_at_source {clock : Clock} {fuel : Nat} {steps : List Step}
    {answers : List (Answer × Machine)}
    (h : Session.perform fuel (.initial clock) steps = some answers)
    (hsteps : ∀ step ∈ steps, step = .reset ∨ ∃ source, step = .run source)
    {k : Nat} {source : String} {r : Report} {after : Machine}
    (hstep : steps[k]? = some (.run source)) (hanswer : answers[k]? = some (.report r, after)) :
    (∀ d ∈ r.diagnostics, d.kind ≠ .runtime → IsLineOf source d.line) ∧
    (∀ e ∈ (parse (scan source).tokens).errors, e.token ∈ (scan source).tokens) ∧
    (∀ d ∈ r.diagnostics, d.kind = .runtime → ∃ e : RuntimeError,
      d = e.diagnostic ∧ after.log.back? = some (.failed e) ∧ e.Fitting ∧
      ∃ u ∈ (steps.take (k + 1)).filterMap Step.unit?,
        e.token ∈ (scan u).tokens ∧ IsLineOf u e.token.line) := by
  -- Up to this step the session has run the units of these steps, and no others.
  have hallowed : ∀ step ∈ steps.take (k + 1),
      step.RunsOneOf ((steps.take (k + 1)).filterMap Step.unit?) := by
    intro step hmem
    obtain rfl | ⟨u, rfl⟩ := hsteps step (List.mem_of_mem_take hmem)
    · exact .inl rfl
    · exact .inr ⟨u, List.mem_filterMap.2 ⟨_, hmem, rfl⟩, rfl⟩
  have hsource : source ∈ (steps.take (k + 1)).filterMap Step.unit? := by
    refine List.mem_filterMap.2 ⟨.run source, ?_, rfl⟩
    exact List.mem_of_getElem? ((List.getElem?_take_of_lt (Nat.lt_succ_self k)).trans hstep)
  have hbefore := fun step hmem =>
    hallowed step (List.take_subset_take_left steps (Nat.le_succ k) hmem)
  obtain ⟨before, hreachable, hperform⟩ :=
    exists_reachable_of_perform (.initial clock) h hbefore hstep hanswer
  obtain ⟨⟨r', after'⟩, hrun, hreport⟩ := Option.map_eq_some_iff.1 hperform
  cases hreport
  obtain heq | ⟨statements, e, hparses, he, heq, hlog⟩ := Machine.run_diagnostics hrun
  · rw [heq]
    refine ⟨fun d hd _ => (isLineOf_of_mem_preliminary hd).2,
      fun e he => token_mem_of_mem_errors he, fun d hd hkind => ?_⟩
    exact absurd hkind (isLineOf_of_mem_preliminary hd).1
  · rw [heq]
    refine ⟨fun d hd hkind => ?_, fun e he => token_mem_of_mem_errors he, fun d hd _ => ?_⟩
    · cases List.mem_singleton.1 hd
      exact absurd rfl hkind
    · obtain ⟨hfitting, u, hu, htoken⟩ := hreachable.fitting hsource hparses he
      exact ⟨e, List.mem_singleton.1 hd, hlog, hfitting, u, hu, htoken,
        isLineOf_of_mem_tokens htoken⟩

/-- The report that a step answers with. -/
def Session.Answer.report? : Session.Answer → Option Report
  | report r => some r
  | _ => none

open Session in
/-- A function of one unit looks for a variable on its second line. When the function is called by
another unit, which has one line only, the variable is complained about on the second line. -/
theorem undefined_variable_points_at_declaring_unit : ∃ answers r after d,
    Session.perform 2 (.initial (.startingAt 0)) [.run "fun f()\x7b\ng;\x7d", .run "f();"] =
      some answers ∧
    answers[1]? = some (.report r, after) ∧ d ∈ r.diagnostics ∧ d.kind = .runtime ∧ d.line = 2 ∧
    ∃ e : RuntimeError, after.log.back? = some (.failed e) ∧ e.Fitting ∧
      e.token ∈ (scan "fun f()\x7b\ng;\x7d").tokens ∧ e.token.line = 2 := by
  have hdiagnostics : (((Session.perform 2 (.initial (.startingAt 0))
      [.run "fun f()\x7b\ng;\x7d", .run "f();"]).bind fun answers => answers[1]?).bind
        fun answer => answer.1.report?).map
          (fun r => r.diagnostics.map fun d => (d.kind, d.line)) = some [(.runtime, 2)] := by
    decide +kernel
  obtain ⟨r, hr, hlines⟩ := Option.map_eq_some_iff.1 hdiagnostics
  obtain ⟨⟨answer, after⟩, hanswer, hreport⟩ := Option.bind_eq_some_iff.1 hr
  obtain ⟨answers, hperform, hanswer⟩ := Option.bind_eq_some_iff.1 hanswer
  obtain rfl : answer = .report r := by
    cases answer <;> cases hreport
    rfl
  obtain ⟨d, hd, hkind⟩ : ∃ d ∈ r.diagnostics, (d.kind, d.line) = (.runtime, 2) :=
    List.mem_map.1 (hlines ▸ List.mem_singleton_self _)
  obtain ⟨hkind, hline⟩ := Prod.mk.inj hkind
  obtain ⟨-, -, hruntime⟩ := diagnostics_point_at_source hperform (by simp) rfl hanswer
  obtain ⟨e, rfl, hlog, hfitting, u, hu, htoken, hisLine⟩ := hruntime d hd hkind
  refine ⟨answers, r, after, _, hperform, hanswer, hd, hkind, hline, e, hlog, hfitting, ?_, hline⟩
  -- The line is one of the first unit only.
  obtain rfl | rfl : u = "fun f()\x7b\ng;\x7d" ∨ u = "f();" := by simpa [Step.unit?] using hu
  · exact htoken
  · have hlast : e.token.line ≤ "f();".toList.count '\n' + 1 := hisLine.2
    rw [show e.token.line = 2 from hline] at hlast
    exact absurd hlast (by decide)

end Treewalk
