import Treewalk.Proofs.Lexing.Order
import Treewalk.Proofs.Parsing.Places
import Treewalk.Proofs.Session.Reachable

/-!
# The order of diagnostics

The report on a unit lists what is wrong with its spelling, then what is wrong with its syntax, each
in the order in which it was found. For the spelling this is the order of the text. For the syntax
it is too, but for assignments without a target, which are reported behind the errors in the value
that they assign.
-/

namespace Treewalk

/-! ## What a run reports -/

/-- The diagnostics of a unit before it is executed. -/
def preliminaryDiagnostics (source : String) : List Diagnostic :=
  (scan source).errors.map LexicalError.diagnostic ++
    (parse (scan source).tokens).errors.map SyntaxError.diagnostic

/-- There is nothing to report just when the unit can be executed. -/
theorem preliminaryDiagnostics_eq_nil_iff {source : String} :
    preliminaryDiagnostics source = [] ↔ ∃ statements, ParsesTo source statements := by
  constructor
  · intro h
    obtain ⟨hlexical, hsyntactic⟩ := List.append_eq_nil_iff.1 h
    exact ⟨_, List.map_eq_nil_iff.1 hlexical, List.map_eq_nil_iff.1 hsyntactic, rfl⟩
  · rintro ⟨statements, h⟩
    rw [preliminaryDiagnostics, h.scan_errors, h.parse_errors]
    rfl

/-- A unit with errors is not executed, and its errors are reported. -/
theorem Machine.run_of_preliminary {source : String} (h : preliminaryDiagnostics source ≠ [])
    (m : Machine) (fuel : Nat) :
    ∃ after, m.run fuel source = some (⟨preliminaryDiagnostics source⟩, after) := by
  obtain ⟨after, -, hrun⟩ := run_of_errors (mt preliminaryDiagnostics_eq_nil_iff.2 h) m fuel
  exact ⟨after, hrun⟩

/-- A report lists the errors in the unit. If there are none, the unit is executed, and the report
is empty or tells about the error that ended the execution, which is also logged last. -/
theorem Machine.run_diagnostics {fuel : Nat} {source : String} {m after : Machine} {r : Report}
    (h : m.run fuel source = some (r, after)) :
    r.diagnostics = preliminaryDiagnostics source ∨
      ∃ statements e, ParsesTo source statements ∧
        (executeAll (call fuel) fuel statements (m.ready source)).error? = some e ∧
        r.diagnostics = [e.diagnostic] ∧ after.log.back? = some (.failed e) := by
  by_cases hparses : ∃ statements, ParsesTo source statements
  · have hnil := preliminaryDiagnostics_eq_nil_iff.2 hparses
    obtain ⟨statements, hparses⟩ := hparses
    rw [run_of_parsesTo hparses] at h
    cases ho : executeAll (call fuel) fuel statements (m.ready source) with
    | ok flow left =>
      rw [ho] at h
      cases h
      exact .inl hnil.symm
    | failed e left =>
      rw [ho] at h
      cases h
      exact .inr ⟨statements, e, hparses, by rw [ho]; rfl, rfl, by simp [note]⟩
    | outOfFuel =>
      rw [ho] at h
      cases h
  · have hne := mt preliminaryDiagnostics_eq_nil_iff.1 hparses
    obtain ⟨after', hrun⟩ := run_of_preliminary hne m fuel
    rw [h] at hrun
    cases hrun
    exact .inl rfl

/-! ## The order of the tokens -/

theorem eof_mem_scan (source : String) :
    Token.endOfInput (source.toList.count '\n' + 1) ∈ (scan source).tokens := by
  rw [scan_tokens_eq]
  exact List.mem_append_right _ List.mem_cons_self

/-- Every error in the syntax of a unit is found at one of its tokens. -/
theorem scan_getElem?_of_finding {source : String} {found : List Parser.Finding}
    (h : Parser.Findings (scan source).tokens True (fun _ => True) 0
      (Parser.endIndex (scan source).tokens) found) {f : Parser.Finding} (hf : f ∈ found) :
    (scan source).tokens[f.index]? = some f.error.token := by
  have hend := Parser.endIndex_lt (eof_mem_scan source) rfl
  rw [h.token_eq f hf]
  exact Parser.getElem?_eq_tokenAt (Nat.lt_of_le_of_lt (h.between f hf).2 hend)

/-- Tokens stand in the order of the text, and so their lines do not decrease. -/
theorem scan_line_le {source : String} {i j : Nat} {a b : Token}
    (ha : (scan source).tokens[i]? = some a) (hb : (scan source).tokens[j]? = some b)
    (hle : i ≤ j) : a.line ≤ b.line := by
  obtain ⟨hi, rfl⟩ := List.getElem?_eq_some_iff.1 ha
  obtain ⟨hj, rfl⟩ := List.getElem?_eq_some_iff.1 hb
  obtain hlt | rfl := Nat.lt_or_eq_of_le hle
  · exact List.pairwise_iff_getElem.1 (scan_tokens_pairwise source) i j hi hj hlt
  · exact Nat.le_refl _

/-- The report on a unit lists first the errors in its spelling and then those in its syntax, if
there are any; execution contributes only if there are none.

* The errors in the spelling stand at increasing positions.
* Each error in the syntax stands at a token of the unit. These tokens stand in the order of the
  text, and their lines do not decrease, but for one case: an assignment without a target is
  reported after the errors in its value, which stand behind it. These are the errors that are noted
  when the expression behind its equals sign is read, at tokens up to where that reading stops. -/
theorem report_ordered_but_for_assignments (source : String) :
    (∀ m fuel, preliminaryDiagnostics source ≠ [] →
      ∃ after, Machine.run fuel source m = some (⟨preliminaryDiagnostics source⟩, after)) ∧
    (∀ m fuel r after, Machine.run fuel source m = some (r, after) →
      r.diagnostics = preliminaryDiagnostics source ∨
        preliminaryDiagnostics source = [] ∧ ∃ e : RuntimeError, r.diagnostics = [e.diagnostic]) ∧
    (scan source).errors.Pairwise (fun a b => a.position.Before b.position) ∧
    ∃ found : List Parser.Finding,
      (parse (scan source).tokens).errors = found.map Parser.Finding.error ∧
      (∀ f ∈ found, (scan source).tokens[f.index]? = some f.error.token) ∧
      found.Pairwise fun a b =>
        a.index ≤ b.index ∧ a.error.token.line ≤ b.error.token.line ∨
          a.InValueOf (scan source).tokens b ∧ b.error.token.line ≤ a.error.token.line := by
  refine ⟨fun m fuel hne => ?_, fun m fuel r after h => ?_, scan_errors_pairwise source, ?_⟩
  · exact Machine.run_of_preliminary hne m fuel
  · obtain heq | ⟨statements, e, hparses, -, heq, -⟩ := Machine.run_diagnostics h
    · exact .inl heq
    · exact .inr ⟨preliminaryDiagnostics_eq_nil_iff.2 ⟨statements, hparses⟩, e, heq⟩
  · obtain ⟨found, herrors, hfound⟩ := parse_findings (scan source).tokens
    -- Every finding is at a token of the unit, at the index that it tells.
    have hplace := fun f hf => scan_getElem?_of_finding (f := f) hfound hf
    refine ⟨found, herrors, hplace, (hfound.ordered trivial).imp_of_mem fun ha hb horder => ?_⟩
    obtain hle | hvalue := horder
    · exact .inl ⟨hle, scan_line_le (hplace _ ha) (hplace _ hb) hle⟩
    · -- The value stands behind its equals sign, which is reported later.
      exact .inr ⟨hvalue, scan_line_le (hplace _ hb) (hplace _ ha) (Nat.le_of_lt hvalue.lt)⟩

/-- Neither `1` nor `2` can be assigned to. The second assignment is the value of the first, and so
it is reported before it, although it is on a later line. -/
theorem assignment_reported_behind_value : ∃ report after,
    Machine.run 0 "1 =\n2 = 3;" (.initial (.startingAt 0)) = some (report, after) ∧
    report.diagnostics.map Diagnostic.line = [2, 1] ∧
    ¬(report.diagnostics.map Diagnostic.line).Pairwise (· ≤ ·) := by
  have hlines : (preliminaryDiagnostics "1 =\n2 = 3;").map Diagnostic.line = [2, 1] := by
    decide +kernel
  have hne : preliminaryDiagnostics "1 =\n2 = 3;" ≠ [] := by
    intro hnil
    rw [hnil] at hlines
    cases hlines
  obtain ⟨after, hrun⟩ := Machine.run_of_preliminary hne (.initial (.startingAt 0)) 0
  refine ⟨_, after, hrun, hlines, ?_⟩
  rw [hlines]
  decide

end Treewalk
