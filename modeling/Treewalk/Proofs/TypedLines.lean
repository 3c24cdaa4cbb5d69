import Treewalk.CommandLine
import Treewalk.Proofs.Diagnostics
import Treewalk.Proofs.Lexing.Margins

/-!
# Lines as they are typed

What is run of a line is what remains of it without the white space at its ends. This has the tokens
of the line as it is typed, but not its errors: columns are counted from where the rest starts, and
white space that would be an error, because it is not blank, is cut off before it is seen. A line to
which neither applies is run as it is typed, and no other line is.
-/

namespace Treewalk

/-! ## The ends of a line -/

namespace Text

/-- The white space at the start of a text. -/
def leading (text : List Char) : List Char :=
  text.takeWhile isSpace

/-- The white space at the end of a text, if there is something else in it. -/
def trailing (text : List Char) : List Char :=
  ((text.dropWhile isSpace).reverse.takeWhile isSpace).reverse

/-- A line is what remains of it, between the white space at its ends. -/
theorem leading_append (text : List Char) :
    leading text ++ (trim text ++ trailing text) = text := by
  rw [leading, trim, trailing, ← List.reverse_append, List.takeWhile_append_dropWhile,
    List.reverse_reverse, List.takeWhile_append_dropWhile]

variable {text : List Char}

/-- The white space at the start of a line is a margin. -/
theorem isMargin_leading (hline : '\n' ∉ text) : IsMargin (leading text) := by
  refine fun c hc => ⟨List.all_eq_true.1 List.all_takeWhile c hc, ?_⟩
  rintro rfl
  exact hline (List.takeWhile_sublist _ |>.subset hc)

/-- So is that at its end. -/
theorem isMargin_trailing (hline : '\n' ∉ text) : IsMargin (trailing text) := by
  intro c hc
  refine ⟨List.all_eq_true.1 List.all_takeWhile c (List.mem_reverse.1 hc), ?_⟩
  rintro rfl
  rw [← leading_append text] at hline
  exact hline (by simp [hc])

theorem newline_not_mem_trim (hline : '\n' ∉ text) : '\n' ∉ trim text := by
  rw [← leading_append text] at hline
  exact fun hmem => hline (by simp [hmem])

end Text

open Text

/-- The white space at the ends of a line is blank, apart from what belongs to a comment or to a
string at its end. -/
def HasBlankEnds (text : List Char) : Prop :=
  (leading text).all isBlank ∧ (endsOpen (trim text) ∨ (trailing text).all isBlank)

instance (text : List Char) : Decidable (HasBlankEnds text) :=
  inferInstanceAs (Decidable (_ ∧ (_ ∨ _)))

/-- The white space at the ends of a line is blank, and in front of what remains there is none, or
nothing is wrong with the spelling of what remains. -/
def HasIdleEnds (text : List Char) : Prop :=
  HasBlankEnds text ∧ (leading text = [] ∨ (scan (String.ofList (trim text))).errors = [])

instance (text : List Char) : Decidable (HasIdleEnds text) :=
  inferInstanceAs (Decidable (_ ∧ (_ ∨ _)))

/-- A line is scanned to the tokens of what remains of it without its ends. Before the errors in
that are those in the white space at the start, and behind them those at the end. -/
theorem scan_line {text : List Char} (hline : '\n' ∉ text) :
    (scan (String.ofList text)).tokens = (scan (String.ofList (trim text))).tokens ∧
    (scan (String.ofList text)).errors = (scan (String.ofList (leading text))).errors ++
      ((scan (String.ofList (trim text))).errors ++
        if endsOpen (trim text) then []
        else (scan (String.ofList (trailing text))).errors.map (LexicalError.after (trim text))).map
          (LexicalError.after (leading text)) := by
  obtain ⟨htokens, herrors⟩ :=
    scan_margin_append (isMargin_leading hline) (trim text ++ trailing text)
  obtain ⟨htokens', herrors'⟩ :=
    scan_append_margin (newline_not_mem_trim hline) (isMargin_trailing hline)
  rw [leading_append, htokens'] at htokens
  rw [leading_append, herrors'] at herrors
  exact ⟨htokens, herrors⟩

/-- With blank ends, the errors are those of what remains, further to the right. -/
theorem scan_line_of_blank {text : List Char} (hline : '\n' ∉ text) (hblank : HasBlankEnds text) :
    (scan (String.ofList text)).errors =
      (scan (String.ofList (trim text))).errors.map (LexicalError.after (leading text)) := by
  have hleading := (scan_margin (isMargin_leading hline)).2.2 hblank.1
  -- What is behind an open comment or string belongs to that and is no error.
  have htrailing : (if endsOpen (trim text) then []
      else (scan (String.ofList (trailing text))).errors.map (LexicalError.after (trim text))) =
        [] := by
    split
    · rfl
    next hopen =>
      have hall := hblank.2.resolve_left hopen
      rw [(scan_margin (isMargin_trailing hline)).2.2 hall]
      rfl
  rw [(scan_line hline).2, hleading, htrailing, List.append_nil, List.nil_append]

/-- White space that is not blank is an error, besides the others. -/
theorem scan_line_of_not_blank {text : List Char} (hline : '\n' ∉ text)
    (hblank : ¬HasBlankEnds text) :
    (scan (String.ofList (trim text))).errors.length <
      (scan (String.ofList text)).errors.length := by
  rw [(scan_line hline).2]
  simp only [List.length_append, List.length_map]
  by_cases hleading : (leading text).all isBlank
  · have htrailing := fun h => hblank ⟨hleading, h⟩
    have hopen : ¬endsOpen (trim text) := fun h => htrailing (.inl h)
    have hne := mt (scan_margin (isMargin_trailing hline)).2.1 fun h => htrailing (.inr h)
    have hpos := List.length_pos_iff.2 hne
    rw [if_neg hopen, List.length_map]
    omega
  · have hne := mt (scan_margin (isMargin_leading hline)).2.1 hleading
    have hpos := List.length_pos_iff.2 hne
    omega

/-! ## Columns -/

/-- The diagnostic so many columns further to the right, if it has a column. -/
def Diagnostic.right (k : Nat) (d : Diagnostic) : Diagnostic :=
  { d with column := d.column.map (· + k) }

theorem Diagnostic.right_zero : Diagnostic.right 0 = id := by
  funext d
  obtain ⟨kind, message, line, _ | column⟩ := d <;> rfl

def Report.right (k : Nat) (r : Report) : Report :=
  ⟨r.diagnostics.map (Diagnostic.right k)⟩

theorem Report.right_zero (r : Report) : r.right 0 = r := by
  rw [right, Diagnostic.right_zero, List.map_id]

/-- On a line, to stand behind a text is to stand further to the right. -/
theorem LexicalError.diagnostic_after {e : LexicalError} (he : e.position.line = 1)
    {before : List Char} (hbefore : '\n' ∉ before) :
    (e.after before).diagnostic = e.diagnostic.right before.length := by
  have hcount : before.count '\n' = 0 := List.count_eq_zero.2 hbefore
  -- The text has no line feed, so that columns are counted from its start.
  have hcolumn : (Position.behind before).column = before.length + 1 := by
    have hall : ∀ c ∈ before.reverse, c != '\n' := by
      intro c hc
      refine bne_iff_ne.2 fun hnewline => hbefore ?_
      simpa [hnewline] using hc
    have htake := @List.takeWhile_append_of_pos _ _ _ [] hall
    rw [List.append_nil, List.takeWhile_nil, List.append_nil] at htake
    rw [Position.behind, htake, List.length_reverse]
  have hposition (p : Position) (hp : p.line = 1) :
      p.after before = ⟨p.line, p.column + before.length⟩ := by
    rw [Position.after, hcount, if_pos hp, hcolumn]
    rfl
  cases e with
  | unexpectedCharacter c p =>
    rw [after, hposition p he]
    rfl
  | unterminatedString p =>
    rw [after, hposition p he]
    rfl

/-- In a line the errors move to the right if there is something in front of it. -/
theorem map_diagnostic_after {text before : List Char} (hline : '\n' ∉ text)
    (hbefore : '\n' ∉ before) :
    ((scan (String.ofList text)).errors.map (LexicalError.after before)).map
        LexicalError.diagnostic =
      ((scan (String.ofList text)).errors.map LexicalError.diagnostic).map
        (Diagnostic.right before.length) := by
  rw [List.map_map, List.map_map]
  refine List.map_congr_left fun e he => LexicalError.diagnostic_after ?_ hbefore
  obtain ⟨hle, hge⟩ := isLineOf_of_mem_errors he
  rw [String.toList_ofList, List.count_eq_zero.2 hline] at hge
  exact Nat.le_antisymm hge hle

/-- With blank ends, the diagnostics are those of what remains, further to the right. -/
theorem map_diagnostic_of_blank {text : List Char} (hline : '\n' ∉ text)
    (hblank : HasBlankEnds text) :
    (scan (String.ofList text)).errors.map LexicalError.diagnostic =
      ((scan (String.ofList (trim text))).errors.map LexicalError.diagnostic).map
        (Diagnostic.right (leading text).length) := by
  rw [scan_line_of_blank hline hblank, map_diagnostic_after (newline_not_mem_trim hline)
    (isMargin_leading hline).newline_not_mem]

/-- When the errors in the spelling of a line are at the same places with and without its ends. -/
theorem map_diagnostic_eq_iff {text : List Char} (hline : '\n' ∉ text) :
    (scan (String.ofList text)).errors.map LexicalError.diagnostic =
        (scan (String.ofList (trim text))).errors.map LexicalError.diagnostic ↔
      HasIdleEnds text := by
  constructor
  · intro h
    have hblank : HasBlankEnds text := by
      refine Decidable.byContradiction fun hblank => ?_
      have hlt := scan_line_of_not_blank hline hblank
      have hlength := congrArg List.length h
      rw [List.length_map, List.length_map] at hlength
      omega
    refine ⟨hblank, ?_⟩
    -- The first error shows whether the columns have moved.
    rw [map_diagnostic_of_blank hline hblank] at h
    cases herrors : (scan (String.ofList (trim text))).errors with
    | nil => exact .inr rfl
    | cons e errors =>
      rw [herrors] at h
      have hcolumn := congrArg Diagnostic.column (List.cons.inj h).1
      have hlength : e.position.column + (leading text).length = e.position.column :=
        Option.some.inj hcolumn
      exact .inl (List.length_eq_zero_iff.1 (by omega))
  · rintro ⟨hblank, hleading | herrors⟩
    · rw [map_diagnostic_of_blank hline hblank, hleading, List.length_nil, Diagnostic.right_zero,
        List.map_id]
    · rw [map_diagnostic_of_blank hline hblank, herrors]
      rfl

/-! ## Running -/

/-- Two texts with the same tokens, and with errors that differ in their columns only, are run in
the same way. -/
theorem Machine.run_right {source source' : String} {k : Nat}
    (htokens : (Treewalk.scan source').tokens = (Treewalk.scan source).tokens)
    (herrors : (Treewalk.scan source').errors.map LexicalError.diagnostic =
      ((Treewalk.scan source).errors.map LexicalError.diagnostic).map (Diagnostic.right k))
    (m : Machine) (fuel : Nat) :
    m.run fuel source' = (m.run fuel source).map fun (r, m) => (r.right k, m) := by
  have hlength : (Treewalk.scan source').errors.length = (Treewalk.scan source).errors.length := by
    simpa using congrArg List.length herrors
  -- Only errors in the spelling have columns.
  have hright (lexical : List Diagnostic) (errors : List SyntaxError) :
      lexical.map (Diagnostic.right k) ++ errors.map SyntaxError.diagnostic =
        (lexical ++ errors.map SyntaxError.diagnostic).map (Diagnostic.right k) := by
    rw [List.map_append, List.map_map]
    rfl
  simp only [run, scan, parse, htokens, herrors, hlength, hright, List.isEmpty_map, List.length_map]
  split
  next hempty =>
    simp only [hempty, if_true]
    cases interpret _ _ _ <;> rfl
  next hempty =>
    simp only [hempty]
    rfl

/-- A report lists the errors in the spelling, whatever else it lists. -/
theorem Machine.run_lexical {fuel : Nat} {source : String} {m after : Machine} {r : Report}
    (h : m.run fuel source = some (r, after)) :
    r.diagnostics.filter (·.kind = .lexical) =
      (Treewalk.scan source).errors.map LexicalError.diagnostic := by
  obtain hprelim | ⟨statements, e, hparses, -, hruntime, -⟩ := run_diagnostics h
  · rw [hprelim, preliminaryDiagnostics, List.filter_append,
      List.filter_eq_self.2 (by simp [LexicalError.diagnostic]),
      List.filter_eq_nil_iff.2 (by simp [SyntaxError.diagnostic]), List.append_nil]
  · rw [hruntime, hparses.scan_errors]
    rfl

/-- If two texts are reported on in the same way, they have the same errors in their spelling. -/
theorem map_diagnostic_eq_of_reports_eq {source source' : String} {m : Machine} {fuel : Nat}
    (h : (m.run fuel source).map Prod.fst = (m.run fuel source').map Prod.fst) :
    (scan source).errors.map LexicalError.diagnostic =
      (scan source').errors.map LexicalError.diagnostic := by
  -- Without a report the fuel ran out, and so the text was executed.
  have hnone {source : String} (h : m.run fuel source = none) :
      (scan source).errors.map LexicalError.diagnostic = [] := by
    refine Decidable.byContradiction fun hne => ?_
    obtain ⟨after, hrun⟩ := Machine.run_of_preliminary
      (fun hnil => hne (List.append_eq_nil_iff.1 hnil).1) m fuel
    rw [h] at hrun
    cases hrun
  cases hrun : m.run fuel source with
  | none =>
    rw [hrun, Option.map_none, eq_comm, Option.map_eq_none_iff] at h
    rw [hnone hrun, hnone h]
  | some run =>
    rw [hrun, Option.map_some, eq_comm, Option.map_eq_some_iff] at h
    obtain ⟨run', hrun', hreport⟩ := h
    rw [← Machine.run_lexical hrun, ← Machine.run_lexical hrun', hreport]

/-! ## Taking lines -/

namespace CommandLine

/-- Runs a line as it is typed. -/
def runTyped (fuel : Nat) (m : Machine) (text : List Char) : Option Turn :=
  ({ m with written := #[] }.run fuel (String.ofList text)).map fun (report, m) => .next m report

/-- What is reported in a turn. -/
def Turn.report? : Turn → Option Report
  | ended => none
  | next _ report => some report

/-- The turn with its diagnostics so many columns further to the right. -/
def Turn.right (k : Nat) : Turn → Turn
  | ended => ended
  | next m report => next m (report.right k)

theorem takeLine_eq {text : List Char} (hquit : String.ofList (trim text) ≠ ":quit")
    (hreset : String.ofList (trim text) ≠ ":reset") (fuel : Nat) (m : Machine) :
    takeLine fuel m text = runTyped fuel m (trim text) := by
  simp only [takeLine, Line.ofText, if_neg hquit, if_neg hreset]
  rfl

/-- With blank ends, only the columns differ. -/
theorem runTyped_of_blank {text : List Char} (hline : '\n' ∉ text) (hblank : HasBlankEnds text)
    (fuel : Nat) (m : Machine) :
    runTyped fuel m text =
      (runTyped fuel m (trim text)).map (Turn.right (leading text).length) := by
  have herrors := map_diagnostic_of_blank hline hblank
  rw [runTyped, Machine.run_right (scan_line hline).1 herrors, runTyped, Option.map_map,
    Option.map_map]
  rfl

/-- Otherwise the line as it is typed has errors of its own, and is not executed. -/
theorem runTyped_of_not_blank {text : List Char} (hline : '\n' ∉ text)
    (hblank : ¬HasBlankEnds text) (fuel : Nat) (m : Machine) :
    ∃ after, runTyped fuel m text =
        some (.next after ⟨preliminaryDiagnostics (String.ofList text)⟩) ∧
      after.Alike { m with written := #[] } := by
  have hparses : ¬∃ statements, ParsesTo (String.ofList text) statements := by
    rintro ⟨statements, h⟩
    have hlength := scan_line_of_not_blank hline hblank
    rw [h.scan_errors] at hlength
    exact Nat.not_lt_zero _ hlength
  obtain ⟨after, halike, hrun⟩ := Machine.run_of_errors hparses { m with written := #[] } fuel
  exact ⟨after, by rw [runTyped, hrun]; rfl, halike⟩

/-- A line is run as it is typed if the errors in its spelling are at the same places. -/
theorem runTyped_eq {text : List Char} (hline : '\n' ∉ text)
    (herrors : (scan (String.ofList text)).errors.map LexicalError.diagnostic =
      (scan (String.ofList (trim text))).errors.map LexicalError.diagnostic) (fuel : Nat)
    (m : Machine) : runTyped fuel m (trim text) = runTyped fuel m text := by
  have hzero := Machine.run_right (k := 0) (scan_line hline).1
    (by rw [herrors, Diagnostic.right_zero, List.map_id]) { m with written := #[] } fuel
  simp only [Report.right_zero] at hzero
  rw [runTyped, runTyped, hzero, Option.map_map]
  rfl

theorem bind_report?_runTyped (fuel : Nat) (m : Machine) (text : List Char) :
    (runTyped fuel m text).bind Turn.report? =
      ({ m with written := #[] }.run fuel (String.ofList text)).map Prod.fst := by
  rw [runTyped]
  cases Machine.run _ _ _ <;> rfl

/-- A line is run without the white space at its ends, which makes no tokens. If that white space is
blank, a run of the line as it is typed does the same and leaves the same machine, and reports the
same but for the columns, which are as much further to the right as there are blanks at the start.
If it is not, the line as it is typed has more errors and is not executed. So a line is run as it is
typed, and already reported on so, exactly if its ends are idle. -/
theorem lines_run_as_typed_but_for_ends {text : List Char} (hline : '\n' ∉ text)
    (hquit : String.ofList (trim text) ≠ ":quit") (hreset : String.ofList (trim text) ≠ ":reset")
    (fuel : Nat) (m : Machine) :
    takeLine fuel m text = runTyped fuel m (trim text) ∧
    (scan (String.ofList text)).tokens = (scan (String.ofList (trim text))).tokens ∧
    (scan (String.ofList text)).errors = (scan (String.ofList (leading text))).errors ++
      ((scan (String.ofList (trim text))).errors ++
        if endsOpen (trim text) then []
        else (scan (String.ofList (trailing text))).errors.map (LexicalError.after (trim text))).map
          (LexicalError.after (leading text)) ∧
    (HasBlankEnds text →
      runTyped fuel m text = (takeLine fuel m text).map (Turn.right (leading text).length)) ∧
    (¬HasBlankEnds text →
      ∃ after, runTyped fuel m text =
          some (.next after ⟨preliminaryDiagnostics (String.ofList text)⟩) ∧
        after.Alike { m with written := #[] }) ∧
    (takeLine fuel m text = runTyped fuel m text ↔ HasIdleEnds text) ∧
    ((takeLine fuel m text).bind Turn.report? = (runTyped fuel m text).bind Turn.report? ↔
      HasIdleEnds text) := by
  have hidle : HasIdleEnds text → runTyped fuel m (trim text) = runTyped fuel m text :=
    fun h => runTyped_eq hline ((map_diagnostic_eq_iff hline).2 h) fuel m
  -- Reports that agree on all errors agree on those in the spelling, which tell whether the ends
  -- are idle.
  have hreports (h : (runTyped fuel m (trim text)).bind Turn.report? =
      (runTyped fuel m text).bind Turn.report?) : HasIdleEnds text := by
    rw [bind_report?_runTyped, bind_report?_runTyped] at h
    exact (map_diagnostic_eq_iff hline).1 (map_diagnostic_eq_of_reports_eq h.symm)
  rw [takeLine_eq hquit hreset]
  exact ⟨rfl, (scan_line hline).1, (scan_line hline).2,
    fun hblank => runTyped_of_blank hline hblank fuel m,
    fun hblank => runTyped_of_not_blank hline hblank fuel m,
    ⟨fun h => hreports (by rw [h]), hidle⟩, hreports, fun h => by rw [hidle h]⟩

/-- A stray character behind a tab, and a statement behind a no-break space. -/
theorem lines_run_as_typed_but_for_ends_behind_white_space :
    (HasBlankEnds "\t@ ".toList ∧ ¬HasIdleEnds "\t@ ".toList ∧
      runTyped 0 (.initial (.startingAt 0)) "\t@ ".toList =
        (takeLine 0 (.initial (.startingAt 0)) "\t@ ".toList).map (Turn.right 1) ∧
      takeLine 0 (.initial (.startingAt 0)) "\t@ ".toList ≠
        runTyped 0 (.initial (.startingAt 0)) "\t@ ".toList) ∧
    ¬HasBlankEnds "\u00a0print 1;".toList ∧
    (takeLine 1 (.initial (.startingAt 0)) "\u00a0print 1;".toList).bind Turn.report? = some ⟨[]⟩ ∧
    ∃ after, runTyped 1 (.initial (.startingAt 0)) "\u00a0print 1;".toList =
        some (.next after ⟨preliminaryDiagnostics "\u00a0print 1;"⟩) ∧
      after.Alike { Machine.initial (.startingAt 0) with written := #[] } := by
  have hblank : HasBlankEnds "\t@ ".toList := by decide +kernel
  have hidle : ¬HasIdleEnds "\t@ ".toList := by decide +kernel
  have hstray : ¬HasBlankEnds "\u00a0print 1;".toList := by decide +kernel
  obtain ⟨-, -, -, hright, -, hiff, -⟩ := @lines_run_as_typed_but_for_ends "\t@ ".toList
    (by decide +kernel) (by decide +kernel) (by decide +kernel) 0 (.initial (.startingAt 0))
  obtain ⟨-, -, -, -, hnot, -⟩ := @lines_run_as_typed_but_for_ends "\u00a0print 1;".toList
    (by decide +kernel) (by decide +kernel) (by decide +kernel) 1 (.initial (.startingAt 0))
  exact ⟨⟨hblank, hidle, hright hblank, mt hiff.1 hidle⟩, hstray, by decide +kernel, hnot hstray⟩

/-- An error is not reported at the column at which it is typed. -/
theorem indented_error_reported_to_the_left : ∃ (m : Machine) (text : List Char),
    '\n' ∉ text ∧ String.ofList (trim text) ≠ ":quit" ∧ String.ofList (trim text) ≠ ":reset" ∧
    (takeLine 0 m text).bind Turn.report? =
      some ⟨[⟨.lexical, "Unexpected character '@'.", 1, some 1⟩]⟩ ∧
    (runTyped 0 m text).bind Turn.report? =
      some ⟨[⟨.lexical, "Unexpected character '@'.", 1, some 3⟩]⟩ ∧
    takeLine 0 m text ≠ runTyped 0 m text := by
  have htaken : (takeLine 0 (.initial (.startingAt 0)) "  @".toList).bind Turn.report? =
      some ⟨[⟨.lexical, "Unexpected character '@'.", 1, some 1⟩]⟩ := by decide +kernel
  have htyped : (runTyped 0 (.initial (.startingAt 0)) "  @".toList).bind Turn.report? =
      some ⟨[⟨.lexical, "Unexpected character '@'.", 1, some 3⟩]⟩ := by decide +kernel
  refine ⟨.initial (.startingAt 0), "  @".toList, by decide +kernel, by decide +kernel,
    by decide +kernel, htaken, htyped, fun h => ?_⟩
  rw [h, htyped] at htaken
  exact absurd htaken (by decide)

end CommandLine

end Treewalk
