import Treewalk.Proofs.Machine.Errors
import Treewalk.Proofs.Session.Reachable

/-!
# What source text cannot do

The evaluator guards against trees that no source text leads to: operators that are none, two
parameters of one name, a return outside of all functions. As long as a session runs nothing but
source text, none of these guards is ever needed. The reason is the same each time: the parser makes
no such trees, and functions that are called later are parts of trees that it made before.
-/

namespace Treewalk

/-! ## Parameters -/

mutual

/-- Only functions have parameters. -/
theorem Expr.obeys_distinct : (e : Expr) → e.Obeys .distinct
  | .literal _ => trivial
  | .var _ => trivial
  | .assign _ e => ⟨trivial, e.obeys_distinct⟩
  | .unary _ e => ⟨trivial, e.obeys_distinct⟩
  | .binary l _ r => ⟨l.obeys_distinct, trivial, r.obeys_distinct⟩
  | .logical l _ r => ⟨l.obeys_distinct, trivial, r.obeys_distinct⟩
  | .group e => e.obeys_distinct
  | .call e _ args => ⟨e.obeys_distinct, trivial, Expr.obeysAll_distinct args⟩

theorem Expr.obeysAll_distinct : (es : List Expr) → Expr.ObeysAll .distinct es
  | [] => trivial
  | e :: es => ⟨e.obeys_distinct, Expr.obeysAll_distinct es⟩

end

namespace Grammar

/-- A declaration of a variable has no parameters in it. -/
theorem Variable.distinct {ts : List Token} {s : Stmt} (h : Variable ts s) : s.Obeys .distinct := by
  cases h with
  | bare => exact ⟨trivial, fun e _ => e.obeys_distinct⟩
  | initialized => exact ⟨trivial, fun e _ => e.obeys_distinct⟩

theorem Initializer.distinct {ts : List Token} {s : Stmt} (h : Initializer ts (some s)) :
    s.Obeys .distinct := by
  cases h with
  | var h => exact h.distinct
  | expression => exact Expr.obeys_distinct _

/-- A for statement is put together from its parts, and adds no function. -/
theorem loopForm_distinct {cond : Option Expr} {body : Stmt} {first : Option Stmt}
    {increment : Option Expr} (hbody : body.Obeys .distinct)
    (hfirst : ∀ s, first = some s → s.Obeys .distinct) :
    (loopForm cond body first increment).Obeys .distinct := by
  have hexpr := Expr.obeys_distinct
  cases first with
  | none =>
    cases increment with
    | none => exact ⟨hexpr _, hbody⟩
    | some e => exact ⟨hexpr _, hbody, hexpr e, trivial⟩
  | some s =>
    cases increment with
    | none => exact ⟨hfirst s rfl, ⟨hexpr _, hbody⟩, trivial⟩
    | some e => exact ⟨hfirst s rfl, ⟨hexpr _, hbody, hexpr e, trivial⟩, trivial⟩

mutual

/-- What the grammar derives has functions with different parameters only. -/
theorem Statement.distinct {fn d : Bool} {ts : List Token} {s : Stmt} :
    Statement fn d ts s → s.Obeys .distinct
  | .expr _ _ => Expr.obeys_distinct _
  | .print _ _ _ => Expr.obeys_distinct _
  | .ret _ _ _ => fun e _ => e.obeys_distinct
  | .block _ h _ => h.distinct
  | .branch _ _ _ _ h => ⟨Expr.obeys_distinct _, h.distinct⟩
  | .branchElse _ _ _ _ h _ h' => ⟨Expr.obeys_distinct _, h.distinct, h'.distinct⟩
  | .loop _ _ _ _ h => ⟨Expr.obeys_distinct _, h.distinct⟩
  | .forLoop _ _ hfirst _ _ _ _ h =>
    loopForm_distinct h.distinct fun s hs => by subst hs; exact hfirst.distinct

/-- The grammar itself asks for this where it derives a function. -/
theorem Declaration.distinct {fn : Bool} {ts : List Token} {s : Stmt} :
    Declaration fn ts s → s.Obeys .distinct
  | .function _ _ _ _ _ hparams _ _ h _ => ⟨trivial, hparams, h.distinct⟩
  | .var h => h.distinct
  | .statement h => h.distinct

theorem Declarations.distinct {fn : Bool} {ts : List Token} {ss : List Stmt} :
    Declarations fn ts ss → Stmt.ObeysAll .distinct ss
  | .nil => trivial
  | .cons h hrest => ⟨h.distinct, hrest.distinct⟩

end

end Grammar

/-- Text without errors has functions with different parameters only. -/
theorem ParsesTo.distinct {source : String} {statements : List Stmt}
    (h : ParsesTo source statements) : Stmt.ObeysAll .distinct statements := by
  have hspelled := declarations_of_parse h.parse_errors
  rw [h.statements_eq] at hspelled
  exact hspelled.distinct

/-- Text without errors has no return outside of functions. -/
theorem ParsesTo.returnFree {source : String} {statements : List Stmt}
    (h : ParsesTo source statements) : Stmt.returnFreeAll statements := by
  have hspelled := declarations_of_parse h.parse_errors
  rw [h.statements_eq] at hspelled
  exact hspelled.returnFree rfl

/-! ## Reports -/

/-- Every message starts with a text of its own, and three letters of it tell an unknown operator
from the others. -/
theorem RuntimeError.exists_opening (e : RuntimeError) : ∃ p x : String, e.message = p ++ x ∧
    3 ≤ p.toList.length ∧ (p.toList.take 3 = ['U', 'n', 'k'] ↔ ∃ op, e = .unknownOperator op) := by
  cases e with
  | undefinedVariable t => exact ⟨"Undefined variable '", _, String.append_assoc, by simp, by simp⟩
  | alreadyDefined t => exact ⟨"Variable '", _, String.append_assoc, by simp, by simp⟩
  | unknownOperator t => exact ⟨"Unknown operator '", _, String.append_assoc, by simp, by simp⟩
  | operandMustBeNumber t =>
    exact ⟨"Operand must be a number.", _, String.append_empty.symm, by simp, by simp⟩
  | operandsMustBeNumbers t =>
    exact ⟨"Operands must be numbers.", _, String.append_empty.symm, by simp, by simp⟩
  | invalidAddOperands t => exact ⟨"Operands of '", _, String.append_assoc, by simp, by simp⟩
  | notCallable t =>
    exact ⟨"Can only call functions and natives.", _, String.append_empty.symm, by simp, by simp⟩
  | arityMismatch t expected got =>
    exact ⟨"Expected ", _,
      String.append_assoc.trans (String.append_assoc.trans String.append_assoc), by simp, by simp⟩

/-- The message tells that the error is about an unknown operator. -/
theorem RuntimeError.eq_unknownOperator {e : RuntimeError} {op : Token}
    (h : e.message = (unknownOperator op).message) : ∃ op', e = .unknownOperator op' := by
  obtain ⟨p, x, hp, hlength, hletters⟩ := e.exists_opening
  obtain ⟨q, y, hq, hlength', hletters'⟩ := (unknownOperator op).exists_opening
  have hsame := congrArg (fun s => s.toList.take 3) (hp.symm.trans (h.trans hq))
  simp only [String.toList_append, List.take_append_of_le_length hlength,
    List.take_append_of_le_length hlength'] at hsame
  exact hletters.1 (hsame.trans (hletters'.2 ⟨op, rfl⟩))

/-- What was read from tokens never leads to an unknown operator. -/
theorem Activity.Traces.ne_unknownOperator {Q : Token → Prop} {a : Activity} {e : RuntimeError}
    (h : a.Traces e) (hobeys : a.Obeys (.read Q)) (op : Token) : e ≠ .unknownOperator op := by
  obtain ⟨b, hleads, hraises⟩ := h
  exact hraises.ne_unknownOperator (hobeys.of_leads hleads) op

/-! ## Statements, executed to their ends -/

/-- The statements are executed one after the other, each to its end. -/
inductive Executed (fuel : Nat) : List Stmt → Machine → Machine → Prop where
  | nil {m} : Executed fuel [] m m
  | cons {s ss m mid after} : execute (call fuel) fuel s m = .ok .next mid →
      Executed fuel ss mid after → Executed fuel (s :: ss) m after

/-- Without returns, statements that come to an end have all been executed. -/
theorem executed_of_returnFree {fuel : Nat} {ss : List Stmt} (hfree : Stmt.returnFreeAll ss)
    {m after : Machine} {flow : Flow} (h : executeAll (call fuel) fuel ss m = .ok flow after) :
    Executed fuel ss m after := by
  induction ss generalizing m with
  | nil =>
    rw [executeAll] at h
    cases h
    exact .nil
  | cons s ss ih =>
    rw [Stmt.returnFreeAll, Bool.and_eq_true] at hfree
    rw [executeAll, Run.bind_apply] at h
    cases hs : execute (call fuel) fuel s m with
    | ok flow mid =>
      -- The statement has not returned, and so the rest was executed as well.
      obtain rfl : flow = .next := execute_next s hfree.1 _ _ _ hs
      rw [hs] at h
      exact .cons hs (ih hfree.2 h)
    | failed e mid => rw [hs] at h; cases h
    | outOfFuel => rw [hs] at h; cases h

namespace Session

/-! ## Sessions of source text -/

/-- The step executes no trees but those of source text. -/
def Step.FromSource : Step → Prop
  | interpret _ => False
  | _ => True

/-- The step executes no trees but those of source text without errors. -/
def Step.Checked : Step → Prop
  | interpret _ => False
  | force _ => False
  | _ => True

/-- Statements of a text were read from tokens, errors or not. -/
theorem Step.FromSource.obeys {step : Step} (h : step.FromSource) {statements : List Stmt}
    (hexecutes : step.Executes statements) :
    Stmt.ObeysAll (.read fun _ => True) statements := by
  cases hexecutes with
  | run hparses =>
    rw [← hparses.statements_eq]
    exact parse_obeys fun _ _ => trivial
  | force => exact parse_obeys fun _ _ => trivial
  | interpret => cases h

/-- Statements of a text without errors have functions with different parameters only. -/
theorem Step.Checked.distinct {step : Step} (h : step.Checked) {statements : List Stmt}
    (hexecutes : step.Executes statements) : Stmt.ObeysAll .distinct statements := by
  cases hexecutes with
  | run hparses => exact hparses.distinct
  | force => cases h
  | interpret => cases h

/-- No way in which a step can fail is about an unknown operator. -/
theorem Step.Fails.ne_unknownOperator {fuel : Nat} {m : Machine} {step : Step} {e : RuntimeError}
    (h : step.Fails fuel m e) (hm : m.store.Obeys (.read fun _ => True)) (hstep : step.FromSource)
    (op : Token) : e ≠ .unknownOperator op := by
  cases h with
  | executed hexecutes hbefore h =>
    rw [← hbefore.store] at hm
    exact (executeAll_traces (call_traces fuel) _ _ e h).ne_unknownOperator
      ⟨hstep.obeys hexecutes, hm⟩ op
  | defined h =>
    rw [(Store.checkFree_error h).1]
    exact fun he => by cases he
  | assigned h =>
    rw [Store.binder_error h]
    exact fun he => by cases he
  | called hlookup h =>
    have hc : Callable.Obeys _ _ := hm.lookup? hlookup
    exact (call_traces fuel _ _ m e h).ne_unknownOperator ⟨⟨hc, HostValue.values_obey _⟩, hm⟩ op

end Session

/-- Source text never gets to the evaluator's guards.

* In a session in which all trees come from source text, with errors in it or without, no step tells
  the host about an unknown operator.
* If in addition only units without errors have been executed, and another such unit is run: the run
  executes its statements; wherever this leads to a call of a function, the parameters are bound; a
  name that is already defined is always due to a declaration whose scope binds it; no statement of
  the unit returns; and if the report is empty, every statement was executed to its end. -/
theorem source_text_trips_no_guard :
    (∀ m, Session.Reachable Session.Step.FromSource m →
      ∀ fuel (step : Session.Step) answer after op,
      step.FromSource → step.perform fuel m = some (answer, after) →
      ¬answer.Blames (.unknownOperator op)) ∧
    (∀ m, Session.Reachable Session.Step.Checked m → ∀ fuel source statements,
      ParsesTo source statements →
      m.run fuel source = (executeAll (call fuel) fuel statements (m.ready source)).reported ∧
      (∀ k f args m', Activity.Leads ⟨fuel, .executeAll statements, m.ready source⟩
        ⟨k, .call (.function f) args, m'⟩ →
        ∃ after, bindParams m'.nextScope f.params args (m'.opened f.closure) = .ok () after) ∧
      (∀ name, (executeAll (call fuel) fuel statements (m.ready source)).error? =
        some (.alreadyDefined name) →
        ∃ b, Activity.Leads ⟨fuel, .executeAll statements, m.ready source⟩ b ∧
          b.Redeclares name) ∧
      (∀ s ∈ statements, ∀ m' v after,
        execute (call fuel) fuel s m' ≠ .ok (.returned v) after) ∧
      (∀ r after, m.run fuel source = some (r, after) → r.ok →
        Executed fuel statements (m.ready source) after)) := by
  constructor
  · intro m hm fuel step answer after op hstep hperform hblames
    have hobeys := hm.obeys fun _ _ hallowed => hallowed.obeys
    obtain ⟨e, hfails, hdiagnostic⟩ := Session.fails_of_blames hperform hblames
    obtain ⟨op', he⟩ := RuntimeError.eq_unknownOperator (congrArg Diagnostic.message hdiagnostic)
    exact hfails.ne_unknownOperator hobeys hstep op' he
  · intro m hm fuel source statements hparses
    -- What is executed obeys the policy, and so does all that is bound, which comes from units
    -- without errors as well.
    have hstart : Activity.Obeys .distinct ⟨fuel, .executeAll statements, m.ready source⟩ := by
      refine ⟨hparses.distinct, ?_⟩
      rw [(m.ready_alike source).store]
      exact hm.obeys fun _ _ hallowed => hallowed.distinct
    have hrun := Machine.run_of_parsesTo hparses m fuel
    refine ⟨hrun, ?_, ?_, ?_, ?_⟩
    · intro k f args m' hleads
      exact Activity.exists_params (hstart.of_leads hleads)
    · intro name herror
      obtain ⟨b, hleads, hraises⟩ := executeAll_traces (call_traces fuel) _ _ _ herror
      exact ⟨b, hleads, hraises.redeclares (hstart.of_leads hleads)⟩
    · intro s hs m' v after hreturned
      cases execute_next s (Stmt.returnFree_of_mem hparses.returnFree hs) m' _ after hreturned
    · intro r after hran hok
      rw [hrun] at hran
      cases ho : executeAll (call fuel) fuel statements (m.ready source) with
      | ok flow left =>
        rw [ho] at hran
        cases hran
        exact executed_of_returnFree hparses.returnFree ho
      | failed e left =>
        rw [ho] at hran
        cases hran
        cases hok
      | outOfFuel =>
        rw [ho] at hran
        cases hran

/-- Running `var a;var a;` in a new machine leads to the second declaration, and that finds its name
bound. -/
theorem redeclared_variable_is_traced : ∃ b, Activity.Leads
    ⟨0, .executeAll [.var ⟨.identifier, "a", none, 1⟩ none, .var ⟨.identifier, "a", none, 1⟩ none],
      (Machine.initial (.startingAt 0)).ready "var a;var a;"⟩ b ∧
    b.Redeclares ⟨.identifier, "a", none, 1⟩ := by
  have hscan : scan "var a;var a;" =
      ⟨[⟨.varWord, "var", none, 1⟩, ⟨.identifier, "a", none, 1⟩, ⟨.semicolon, ";", none, 1⟩,
        ⟨.varWord, "var", none, 1⟩, ⟨.identifier, "a", none, 1⟩, ⟨.semicolon, ";", none, 1⟩,
        .endOfInput 1], []⟩ := by
    have htext : "var a;var a;".toList =
      ['v', 'a', 'r', ' ', 'a', ';', 'v', 'a', 'r', ' ', 'a', ';'] := by decide
    simp only [scan, htext, Cursor.start]
    rw [Cursor.readSegments_some rfl, Cursor.readSegments_some rfl, Cursor.readSegments_some rfl,
      Cursor.readSegments_some rfl, Cursor.readSegments_some rfl, Cursor.readSegments_some rfl,
      Cursor.readSegments_some rfl, Cursor.readSegments_some rfl, Cursor.readSegments_none rfl]
    rfl
  have hparses : ParsesTo "var a;var a;" [.var ⟨.identifier, "a", none, 1⟩ none,
      .var ⟨.identifier, "a", none, 1⟩ none] :=
    ⟨by rw [hscan], by rw [hscan]; rfl, by rw [hscan]; rfl⟩
  refine (source_text_trips_no_guard.2 _ (.initial (.startingAt 0)) 0 _ _ hparses).2.2.1 _ ?_
  simp only [Machine.ready, Machine.scan, hscan]
  rfl

end Treewalk
