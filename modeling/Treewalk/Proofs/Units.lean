import Treewalk.Proofs.Lexing.Lines
import Treewalk.Proofs.Machine.Fuel
import Treewalk.Proofs.Machine.Returns
import Treewalk.Proofs.Parsing.Acceptance
import Treewalk.Proofs.Parsing.Boundaries
import Treewalk.Proofs.Parsing.Relabelling

/-!
# Units joined

Two units that are run one after the other do the same as one unit that holds both. Scanning goes
apart at the end of a line, parsing at the end of a statement, and execution anywhere in a list of
statements; nothing but the machine is carried from one unit to the next.
-/

namespace Treewalk

/-! ## Programs without errors -/

/-- Nothing is wrong with the spelling and the syntax of a unit, and these are its statements. -/
structure ParsesTo (source : String) (statements : List Stmt) : Prop where
  scan_errors : (scan source).errors = []
  parse_errors : (parse (scan source).tokens).errors = []
  statements_eq : (parse (scan source).tokens).statements = statements

/-- What is parsed without errors is derived by the grammar. -/
theorem declarations_of_parse {tokens : List Token} (h : (parse tokens).errors = []) :
    Grammar.Declarations false (Parser.State.start tokens).rest (parse tokens).statements := by
  obtain ⟨_, hyields⟩ := (parse_yields_iff tokens _).1 ⟨rfl, h⟩
  exact Parser.program_spells hyields

/-- What the grammar derives is parsed without errors. -/
theorem parse_of_declarations {tokens : List Token} {statements : List Stmt}
    (h : Grammar.Declarations false (Parser.State.start tokens).rest statements) :
    (parse tokens).statements = statements ∧ (parse tokens).errors = [] :=
  (parse_yields_iff tokens statements).2 ⟨_, Parser.program_reads h⟩

/-- The mark of the end of the input does not matter to a program without errors. -/
theorem parse_dropEnd {ts : List Token} {last : Token} (hts : ∀ t ∈ ts, t.kind ≠ .eof)
    (hlast : last.kind = .eof) (h : (parse (ts ++ [last])).errors = []) :
    (parse ts).errors = [] ∧ (parse ts).statements = (parse (ts ++ [last])).statements := by
  have hrest : (Parser.State.start (ts ++ [last])).rest = (Parser.State.start ts).rest := by
    rw [Parser.State.start_append hts]
    simp [Parser.State.start, hlast]
  -- Without errors, what the parser makes of tokens is what the grammar makes of them.
  have hspelled := declarations_of_parse h
  rw [hrest] at hspelled
  exact (parse_of_declarations hspelled).symm

theorem Token.down_relabelling (k : Nat) : Relabelling (Token.down k) :=
  ⟨fun _ => rfl, fun _ => rfl, fun _ => rfl⟩

/-- On other lines, a program without errors still has none. -/
theorem parse_down {ts : List Token} (h : (parse ts).errors = []) (k : Nat) :
    (parse (ts.map (Token.down k))).errors = [] := by
  have hrest : (Parser.State.start (ts.map (Token.down k))).rest =
      (Parser.State.start ts).rest.map (Token.down k) := List.takeWhile_map ..
  have hspelled := (declarations_of_parse h).relabel (Token.down_relabelling k)
  rw [← hrest] at hspelled
  exact (parse_of_declarations hspelled).2

/-- So many empty lines that a text behind them starts where it starts behind `a` and a line
feed. -/
def padding (a : String) : String :=
  String.ofList (List.replicate (a.toList.count '\n' + 1) '\n')

/-- Two units without errors are one without errors. The statements of the second are those of it
behind so many empty lines. -/
theorem ParsesTo.join {a b : String} {as : List Stmt} (ha : ParsesTo a as)
    (hb : (scan b).errors = []) (hb' : (parse (scan b).tokens).errors = [])
    (helse : ∀ t ∈ (scan b).tokens.head?, t.kind ≠ .elseWord) :
    ∃ bs, ParsesTo (padding a ++ b) bs ∧ ParsesTo (a ++ "\n" ++ b) (as ++ bs) := by
  -- An unclosed string in `a` would run on into `b`, but it would also be an error.
  have hclosed : ∀ p, LexicalError.unterminatedString p ∉ (scan a).errors := by
    simp [ha.scan_errors]
  obtain ⟨hjoin, hjoin'⟩ := scan_join (b := b) hclosed
  obtain ⟨hpad, hpad'⟩ := scan_pad (a.toList.count '\n' + 1) b
  -- The second unit stands further down, which changes line numbers only.
  have hdown := parse_down hb' (a.toList.count '\n' + 1)
  obtain ⟨hparse, hparse'⟩ : (parse (scan a).tokens.dropLast).errors = [] ∧
      (parse (scan a).tokens.dropLast).statements = (parse (scan a).tokens).statements := by
    have htokens := scan_tokens_eq a
    have herrors := ha.parse_errors
    rw [htokens] at herrors ⊢
    rw [List.dropLast_concat]
    exact parse_dropEnd (scan_dropLast_kind_ne_eof a) rfl herrors
  -- A statement could go on behind the first unit with an else branch only, which is excluded.
  have happend : parse (scan (a ++ "\n" ++ b)).tokens =
      parse (scan a).tokens.dropLast ++ parse (scan (padding a ++ b)).tokens := by
    rw [hjoin, padding, hpad]
    refine parse_append (scan_dropLast_kind_ne_eof a) (by rw [parse_abandoned, hparse]; rfl) ?_
    intro t ht
    rw [List.head?_map] at ht
    obtain ⟨u, hu, rfl⟩ := Option.map_eq_some_iff.1 ht
    exact fun hmem => helse u hu (List.mem_singleton.1 hmem)
  refine ⟨_, ⟨?_, ?_, rfl⟩, ⟨?_, ?_, ?_⟩⟩
  · rw [padding, hpad', hb]
    rfl
  · rw [padding, hpad]
    exact hdown
  · rw [hjoin', ha.scan_errors, hb]
    rfl
  · rw [happend, Program.errors_append, hparse, padding, hpad, hdown]
    rfl
  · rw [happend, Program.statements_append, hparse', ha.statements_eq]

/-! ## Execution -/

theorem Outcome.bind_assoc {α β γ : Type} (o : Outcome α) (f : α → Run β) (g : β → Run γ) :
    (o.bind f).bind g = o.bind fun a => f a >>= g := by
  cases o <;> rfl

/-- What is executed behind statements that have ended: more statements, unless they returned. -/
def Flow.andThen (more : Run Flow) : Flow → Run Flow
  | .next => more
  | .returned v => pure (.returned v)

/-- Statements are executed up to the first one that returns. -/
theorem executeAll_append {apply : Callable → List Value → Run Value} {fuel : Nat}
    (ss ts : List Stmt) (m : Machine) : executeAll apply fuel (ss ++ ts) m =
      (executeAll apply fuel ss m).bind (Flow.andThen (executeAll apply fuel ts)) := by
  induction ss generalizing m with
  | nil => rw [executeAll]; rfl
  | cons s ss ih =>
    rw [List.cons_append, executeAll, executeAll, Run.bind_apply, Run.bind_apply,
      Outcome.bind_assoc]
    cases execute apply fuel s m with
    | ok flow after =>
      cases flow with
      | next => exact ih after
      | returned v => rfl
    | failed e after => rfl
    | outOfFuel => rfl

/-- The report about statements and the machine that they leave, but for its log. There is none if
the fuel did not suffice. -/
def Outcome.finish : Outcome Flow → Option (Report × Machine)
  | ok _ m => some (⟨[]⟩, m.unlogged)
  | failed e m => some (⟨[e.diagnostic]⟩, { m.unlogged with scope := Machine.globals })
  | outOfFuel => none

theorem Outcome.finish_unlogged (o : Outcome Flow) : o.unlogged.finish = o.finish := by
  cases o <;> rfl

/-- The statements, executed with enough fuel, end with this report and leave this machine, but for
its log. -/
def Ends (m : Machine) (statements : List Stmt) (r : Report) (left : Machine) : Prop :=
  ∃ fuel, (executeAll (call fuel) fuel statements m).finish = some (r, left)

section
variable {m m' left : Machine} {ss ts : List Stmt} {r : Report}

theorem finish_of_unlogged_eq (h : m.unlogged = m'.unlogged) (fuel : Nat) (ss : List Stmt) :
    (executeAll (call fuel) fuel ss m).finish = (executeAll (call fuel) fuel ss m').finish := by
  have hbuilt := executeAll_built (call_built fuel) fuel ss
  rw [← Outcome.finish_unlogged, hbuilt.unlogged, h, ← hbuilt.unlogged, Outcome.finish_unlogged]

theorem Ends.of_unlogged_eq (h : m.unlogged = m'.unlogged) (hends : Ends m ss r left) :
    Ends m' ss r left := by
  obtain ⟨fuel, hfuel⟩ := hends
  exact ⟨fuel, by rwa [← finish_of_unlogged_eq h]⟩

/-- Statements that end with some fuel end in the same way with more of it. -/
theorem executeAll_more {fuel fuel' : Nat} (hle : fuel ≤ fuel') {x : Report × Machine}
    (h : (executeAll (call fuel) fuel ss m).finish = some x) :
    executeAll (call fuel') fuel' ss m = executeAll (call fuel) fuel ss m :=
  executeAll_fuel hle fun hfuel => by simp [hfuel, Outcome.finish] at h

/-- Behind statements that ended well others are executed as they would be on their own. -/
theorem ends_append_of_ok (hfree : Stmt.returnFreeAll ss) (h : Ends m ss ⟨[]⟩ m') :
    Ends m (ss ++ ts) r left ↔ Ends m' ts r left := by
  obtain ⟨k, hk⟩ := h
  obtain ⟨after, hafter, rfl⟩ : ∃ after, executeAll (call k) k ss m = .ok .next after ∧
      after.unlogged = m' := by
    cases ho : executeAll (call k) k ss m with
    | ok flow after =>
      obtain rfl : flow = .next := executeAll_next ss hfree _ _ _ ho
      exact ⟨after, rfl, by simpa [ho, Outcome.finish] using hk⟩
    | failed e after => simp [ho, Outcome.finish] at hk
    | outOfFuel => simp [ho, Outcome.finish] at hk
  have hstep : ∀ fuel, k ≤ fuel → executeAll (call fuel) fuel (ss ++ ts) m =
      executeAll (call fuel) fuel ts after := by
    intro fuel hle
    rw [executeAll_append, executeAll_more hle hk, hafter]
    rfl
  -- The two parts may need different amounts of fuel, and both are given the larger one.
  constructor
  · rintro ⟨n, hn⟩
    refine Ends.of_unlogged_eq (m := after) rfl ⟨max n k, ?_⟩
    rw [← hstep _ (Nat.le_max_right n k), executeAll_more (Nat.le_max_left n k) hn, hn]
  · intro hends
    obtain ⟨n, hn⟩ := hends.of_unlogged_eq (Machine.unlogged_unlogged after)
    refine ⟨max n k, ?_⟩
    rw [hstep _ (Nat.le_max_right n k), executeAll_more (Nat.le_max_left n k) hn, hn]

/-- Behind a failure nothing is executed. -/
theorem ends_append_of_failed {r' : Report} (h : Ends m ss r' m') (hr' : r' ≠ ⟨[]⟩) :
    Ends m (ss ++ ts) r left ↔ r = r' ∧ left = m' := by
  obtain ⟨k, hk⟩ := h
  obtain ⟨e, after, hafter⟩ : ∃ e after, executeAll (call k) k ss m = .failed e after := by
    cases ho : executeAll (call k) k ss m with
    | ok flow after =>
      rw [ho] at hk
      exact absurd (congrArg Prod.fst (Option.some.inj hk)).symm hr'
    | failed e after => exact ⟨e, after, rfl⟩
    | outOfFuel => simp [ho, Outcome.finish] at hk
  have hstep : ∀ fuel, k ≤ fuel → executeAll (call fuel) fuel (ss ++ ts) m = .failed e after := by
    intro fuel hle
    rw [executeAll_append, executeAll_more hle hk, hafter]
    rfl
  rw [hafter] at hk
  constructor
  · rintro ⟨n, hn⟩
    rw [← executeAll_more (Nat.le_max_left n k) hn, hstep _ (Nat.le_max_right n k), hk] at hn
    exact ⟨(Prod.mk.inj (Option.some.inj hn)).1.symm, (Prod.mk.inj (Option.some.inj hn)).2.symm⟩
  · rintro ⟨rfl, rfl⟩
    exact ⟨k, by rw [hstep k (Nat.le_refl k), hk]⟩

end

/-! ## Units -/

namespace Machine

/-- The unit, run with enough fuel, gives this report and leaves this machine. -/
def Runs (m : Machine) (source : String) (r : Report) (left : Machine) : Prop :=
  ∃ fuel, m.run fuel source = some (r, left)

/-- The machines differ in their logs at most: they have the same scopes with the same bindings, are
in the same scope, and have read the clock and written alike. -/
structure Alike (m m' : Machine) : Prop where
  store : m.store = m'.store
  scope : m.scope = m'.scope
  clock : m.clock = m'.clock
  written : m.written = m'.written

/-- Field by field, or with the logs removed. -/
theorem alike_iff_unlogged_eq {m m' : Machine} : m.Alike m' ↔ m.unlogged = m'.unlogged := by
  obtain ⟨store, scope, clock, written, log⟩ := m
  obtain ⟨store', scope', clock', written', log'⟩ := m'
  simp only [unlogged, mk.injEq, and_true]
  constructor
  · rintro ⟨hstore, hscope, hclock, hwritten⟩
    exact ⟨hstore, hscope, hclock, hwritten⟩
  · rintro ⟨hstore, hscope, hclock, hwritten⟩
    exact ⟨hstore, hscope, hclock, hwritten⟩

theorem unlogged_foldl_note {α : Type} (entry : α → LogEntry) (as : List α) (m : Machine) :
    (as.foldl (fun m a => m.note (entry a)) m).unlogged = m.unlogged := by
  induction as generalizing m with
  | nil => rfl
  | cons a as ih => rw [List.foldl_cons, ih, unlogged_note]

/-- Before its statements are executed, a unit without errors changes the log only. -/
theorem run_eq_finish {source : String} {statements : List Stmt} (h : ParsesTo source statements)
    (m : Machine) (fuel : Nat) :
    (m.run fuel source).map (fun (r, after) => (r, after.unlogged)) =
      (executeAll (call fuel) fuel statements m).finish := by
  simp only [run, scan, parse, h.scan_errors, h.parse_errors, h.statements_eq, List.map_nil,
    List.append_nil, List.isEmpty_nil, if_true, interpret]
  -- The statements are executed by a machine that has logged the tokens and the phases.
  rw [← finish_of_unlogged_eq (m := note _ (.interpreting statements.length))]
  · cases executeAll (call fuel) fuel statements _ <;> rfl
  · simp only [unlogged_foldl_note, unlogged_note]

/-- A unit without errors is run by executing its statements. -/
theorem runs_iff_ends {m left : Machine} {source : String} {statements : List Stmt} {r : Report}
    (h : ParsesTo source statements) :
    (∃ after, m.Runs source r after ∧ after.unlogged = left) ↔ Ends m statements r left := by
  simp only [Ends, ← run_eq_finish h, Option.map_eq_some_iff, Prod.exists, Prod.mk.injEq, Runs]
  constructor
  · rintro ⟨after, ⟨fuel, hrun⟩, hleft⟩
    exact ⟨fuel, r, after, hrun, rfl, hleft⟩
  · rintro ⟨fuel, _, after, hrun, rfl, hleft⟩
    exact ⟨after, ⟨fuel, hrun⟩, hleft⟩

end Machine

/-- Two units are run as one, or one after the other. Let nothing be wrong with the spelling and the
syntax of either, and let the second one not start with `else`.

* If the first ends well, both in one unit, with a line feed between them, give the report that the
  second gives behind the first, on the lines on which it stands in the one unit, and leave the same
  machine but for its log. Either way ends only if the other one does.
* If the first fails, so does the one unit, with the same report, and leaves the same machine but
  for its log. -/
theorem runs_join {a b : String} (ha : (scan a).errors = [])
    (ha' : (parse (scan a).tokens).errors = []) (hb : (scan b).errors = [])
    (hb' : (parse (scan b).tokens).errors = [])
    (helse : ∀ t ∈ (scan b).tokens.head?, t.kind ≠ .elseWord)
    {m m₁ : Machine} {r₁ : Report} (hrun : m.Runs a r₁ m₁) :
    (r₁.ok →
      (∀ r m', m.Runs (a ++ "\n" ++ b) r m' →
        ∃ m₂, m₁.Runs (padding a ++ b) r m₂ ∧ m'.Alike m₂) ∧
      (∀ r m₂, m₁.Runs (padding a ++ b) r m₂ →
        ∃ m', m.Runs (a ++ "\n" ++ b) r m' ∧ m'.Alike m₂)) ∧
    (¬r₁.ok →
      (∃ m', m.Runs (a ++ "\n" ++ b) r₁ m' ∧ m'.Alike m₁) ∧
      (∀ r m', m.Runs (a ++ "\n" ++ b) r m' → r = r₁ ∧ m'.Alike m₁)) := by
  have hparses : ParsesTo a (parse (scan a).tokens).statements := ⟨ha, ha', rfl⟩
  obtain ⟨bs, hpadded, hjoined⟩ := hparses.join hb hb' helse
  have hends : Ends m _ r₁ m₁.unlogged := (Machine.runs_iff_ends hparses).1 ⟨m₁, hrun, rfl⟩
  refine ⟨fun hok => ?_, fun hfailed => ?_⟩
  · obtain rfl : r₁ = ⟨[]⟩ := by
      obtain ⟨diagnostics⟩ := r₁
      simpa [Report.ok] using hok
    -- No statement of the first unit returns, so that those of the second come to be executed.
    have hfree := (declarations_of_parse ha').returnFree rfl
    -- Since the first unit ends well, what counts is how the second one ends behind it.
    have happend : ∀ r left, Ends m (_ ++ bs) r left ↔ Ends m₁ bs r left := fun r left =>
      (ends_append_of_ok hfree hends).trans ⟨.of_unlogged_eq rfl, .of_unlogged_eq rfl⟩
    refine ⟨fun r m' hrun' => ?_, fun r m₂ hrun' => ?_⟩
    · obtain ⟨m₂, hrun₂, hleft⟩ := (Machine.runs_iff_ends hpadded).2 <| (happend r _).1 <|
        (Machine.runs_iff_ends hjoined).1 ⟨m', hrun', rfl⟩
      exact ⟨m₂, hrun₂, Machine.alike_iff_unlogged_eq.2 hleft.symm⟩
    · obtain ⟨m', hrun₁, hleft⟩ := (Machine.runs_iff_ends hjoined).2 <| (happend r _).2 <|
        (Machine.runs_iff_ends hpadded).1 ⟨m₂, hrun', rfl⟩
      exact ⟨m', hrun₁, Machine.alike_iff_unlogged_eq.2 hleft⟩
  · have hne : r₁ ≠ ⟨[]⟩ := fun h => hfailed (by rw [h]; rfl)
    refine ⟨?_, fun r m' hrun' => ?_⟩
    · obtain ⟨m', hrun₁, hleft⟩ := (Machine.runs_iff_ends hjoined).2 <|
        (ends_append_of_failed hends hne).2 ⟨rfl, rfl⟩
      exact ⟨m', hrun₁, Machine.alike_iff_unlogged_eq.2 hleft⟩
    · obtain ⟨hr, hleft⟩ := (ends_append_of_failed hends hne).1 <|
        (Machine.runs_iff_ends hjoined).1 ⟨m', hrun', rfl⟩
      exact ⟨hr, Machine.alike_iff_unlogged_eq.2 hleft⟩

/-- Behind `null;` the second unit prints; behind `-null;`, which fails, it does not. -/
theorem runs_join_print :
    (∃ m', (Machine.initial (.startingAt 0)).Runs ("null;" ++ "\n" ++ "print null;") ⟨[]⟩ m' ∧
      m'.written = #[.line "null"]) ∧
    (∃ m', (Machine.initial (.startingAt 0)).Runs ("-null;" ++ "\n" ++ "print null;")
        ⟨[⟨.runtime, "Operand must be a number.", 1, none⟩]⟩ m' ∧ m'.written = #[]) := by
  have hnull : scan "null;" =
      ⟨[⟨.nullWord, "null", none, 1⟩, ⟨.semicolon, ";", none, 1⟩, .endOfInput 1], []⟩ := by
    have htext : "null;".toList = ['n', 'u', 'l', 'l', ';'] := by decide
    simp only [scan, htext, Cursor.start]
    rw [Cursor.readSegments_some rfl, Cursor.readSegments_some rfl, Cursor.readSegments_none rfl]
    rfl
  have hminus : scan "-null;" =
      ⟨[⟨.minus, "-", none, 1⟩, ⟨.nullWord, "null", none, 1⟩, ⟨.semicolon, ";", none, 1⟩,
        .endOfInput 1], []⟩ := by
    have htext : "-null;".toList = ['-', 'n', 'u', 'l', 'l', ';'] := by decide
    simp only [scan, htext, Cursor.start]
    rw [Cursor.readSegments_some rfl, Cursor.readSegments_some rfl, Cursor.readSegments_some rfl,
      Cursor.readSegments_none rfl]
    rfl
  have hprint : scan "print null;" =
      ⟨[⟨.printWord, "print", none, 1⟩, ⟨.nullWord, "null", none, 1⟩, ⟨.semicolon, ";", none, 1⟩,
        .endOfInput 1], []⟩ := by
    have htext : "print null;".toList =
      ['p', 'r', 'i', 'n', 't', ' ', 'n', 'u', 'l', 'l', ';'] := by decide
    simp only [scan, htext, Cursor.start]
    rw [Cursor.readSegments_some rfl, Cursor.readSegments_some rfl, Cursor.readSegments_some rfl,
      Cursor.readSegments_some rfl, Cursor.readSegments_none rfl]
    rfl
  have hpadded : ParsesTo (padding "null;" ++ "print null;") [.print (.literal .null)] := by
    have hone : padding "null;" = String.ofList (List.replicate 1 '\n') := by decide
    obtain ⟨htokens, herrors⟩ := scan_pad 1 "print null;"
    rw [hprint] at htokens herrors
    rw [hone]
    exact ⟨herrors, by rw [htokens]; rfl, by rw [htokens]; rfl⟩
  constructor
  · have hparses : ParsesTo "null;" [.expr (.literal .null)] :=
      ⟨by rw [hnull], by rw [hnull]; rfl, by rw [hnull]; rfl⟩
    obtain ⟨m₁, hrun, hleft⟩ :=
      (Machine.runs_iff_ends (m := .initial (.startingAt 0)) hparses).2 ⟨0, rfl⟩
    obtain ⟨m₂, hrun₂, hleft₂⟩ := (Machine.runs_iff_ends (m := m₁) hpadded).2 ⟨0, rfl⟩
    obtain ⟨m', hrun', halike⟩ := ((runs_join hparses.scan_errors hparses.parse_errors
      (by rw [hprint]) (by rw [hprint]; rfl) (by rw [hprint]; decide) hrun).1 rfl).2 _ _ hrun₂
    have hwritten : m₁.written = #[] := congrArg Machine.written hleft
    have hwritten₂ : m₂.written = m₁.written.push (.line "null") := congrArg Machine.written hleft₂
    exact ⟨m', hrun', by rw [halike.written, hwritten₂, hwritten]; rfl⟩
  · have hparses : ParsesTo "-null;" [.expr (.unary ⟨.minus, "-", none, 1⟩ (.literal .null))] :=
      ⟨by rw [hminus], by rw [hminus]; rfl, by rw [hminus]; rfl⟩
    obtain ⟨m₁, hrun, hleft⟩ :=
      (Machine.runs_iff_ends (m := .initial (.startingAt 0)) hparses).2 ⟨0, rfl⟩
    obtain ⟨m', hrun', halike⟩ := ((runs_join hparses.scan_errors hparses.parse_errors
      (by rw [hprint]) (by rw [hprint]; rfl) (by rw [hprint]; decide) hrun).2 (by decide)).1
    exact ⟨m', hrun', halike.written.trans (congrArg Machine.written hleft)⟩

end Treewalk
