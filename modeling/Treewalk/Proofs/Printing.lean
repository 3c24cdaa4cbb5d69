import Treewalk.Proofs.Lexing.Rescan
import Treewalk.Proofs.Session.Reachable
import Treewalk.Proofs.Sinks

/-!
# Printing an expression

A text that spells an expression when a semicolon stands behind it can be printed: with `print` in
front of it there is a unit without errors, and if the value of the expression does not depend on
the machine, the unit writes that value and nothing else happens.
-/

namespace Treewalk

open Lexical

/-! ## Units without errors -/

/-- A text without lexical errors whose tokens the grammar derives. -/
theorem parsesTo_of_declarations {source : String} {statements : List Stmt}
    (herrors : (scan source).errors = [])
    (h : Grammar.Declarations false (scan source).tokens.dropLast statements) :
    ParsesTo source statements := by
  -- The parser reads up to the end of input, which is the last token.
  have hrest : (Parser.State.start (scan source).tokens).rest = (scan source).tokens.dropLast := by
    rw [scan_tokens_eq, Parser.State.start_append (scan_dropLast_kind_ne_eof source),
      List.dropLast_concat, Parser.State.before,
      Parser.State.start_rest (scan_dropLast_kind_ne_eof source)]
    exact List.append_nil _
  obtain ⟨hstatements, hnone⟩ := parse_of_declarations (hrest ▸ h)
  exact ⟨herrors, hnone, hstatements⟩

/-- With `print` in front of it, a text is scanned as it is alone, but for one more token and the
columns of its errors. -/
theorem scan_print (rest : String) :
    (scan ("print " ++ rest)).tokens = ⟨.printWord, "print", none, 1⟩ :: (scan rest).tokens ∧
    (scan ("print " ++ rest)).errors =
      (scan rest).errors.map (LexicalError.after "print ".toList) := by
  have hprint : Lexeme .printWord "print".toList none := .reserved (by decide)
  obtain ⟨segments, hrest⟩ := Cursor.exists_segmentation rest.toList
  have hboth (more : List Char) {segments : List Segment} (h : Segmentation more segments) :
      Segmentation ("print ".toList ++ more)
        (.token .printWord "print".toList none :: .blank ' ' :: segments) := by
    refine .cons (s := .token ..) (hprint.first_append_blank (by decide) _) ?_
    exact .cons (s := .blank ' ') (first_blank (by decide) _) h
  obtain ⟨htokens, herrors⟩ := scan_append (a := "print ") (hboth [] .nil) hrest
    (by rw [String.toList_append]; exact hboth rest.toList hrest)
  have hfront : (scan "print ").tokens.dropLast = [⟨.printWord, "print", none, 1⟩] ∧
      (scan "print ").errors = [] := by decide +kernel
  have hdown : Token.down ("print ".toList.count '\n') = id := rfl
  rw [hfront.1, hdown, List.map_id] at htokens
  rw [hfront.2] at herrors
  exact ⟨htokens, herrors⟩

theorem scan_semicolon : (scan ";").tokens = [⟨.semicolon, ";", none, 1⟩, .endOfInput 1] ∧
    (scan ";").errors = [] := by
  decide +kernel

/-! ## Texts of expressions -/

theorem Grammar.Expression.unary {ts : List Token} {e : Expr} (h : Grammar.Unary ts e) :
    Grammar.Expression ts e :=
  -- No tier of operators is needed.
  .operation <| .tighter <| .tighter <| .tighter <| .tighter <| .tighter <| .tighter <| .unary h

theorem Grammar.Unary.literal {t : Token} {value : Literal} (h : Grammar.Denotes t value) :
    Grammar.Unary [t] (.literal value) :=
  .call (.primary (.literal h))

/-- In front of a semicolon, the text is scanned to these tokens, which spell an expression. -/
structure Spells (text : String) (ts : List Token) (e : Expr) : Prop where
  errors : (scan (text ++ ";")).errors = []
  tokens : ∃ semicolon, semicolon.kind = .semicolon ∧
    (scan (text ++ ";")).tokens.dropLast = ts ++ [semicolon]
  expression : Grammar.Expression ts e

namespace Spells

variable {text : String} {ts : List Token} {e : Expr}

theorem parsesTo (h : Spells text ts e) : ParsesTo (text ++ ";") [.expr e] := by
  obtain ⟨semicolon, hkind, htokens⟩ := h.tokens
  refine parsesTo_of_declarations h.errors ?_
  rw [htokens, ← List.append_nil (ts ++ _)]
  exact .cons (.statement (.expr h.expression hkind)) .nil

/-- With `print` in front of it, the text is a unit of one statement. -/
theorem parsesTo_print (h : Spells text ts e) :
    ParsesTo ("print " ++ text ++ ";") [.print e] := by
  obtain ⟨semicolon, hkind, htokens⟩ := h.tokens
  obtain ⟨hscan, herrors⟩ := scan_print (text ++ ";")
  rw [h.errors, ← String.append_assoc] at herrors
  rw [← String.append_assoc] at hscan
  refine parsesTo_of_declarations herrors ?_
  have hne : (scan (text ++ ";")).tokens ≠ [] := by rw [scan_tokens_eq]; simp
  rw [hscan, List.dropLast_cons_of_ne_nil hne, htokens, ← List.append_nil (_ :: _)]
  exact .cons (.statement (.print rfl h.expression hkind)) .nil

/-- On a console whose sink has unlimited room, the value and a line feed are written. -/
theorem perform_print (h : Spells text ts e) {v : Value}
    (hvalue : ∀ apply m, evaluate apply e m = .ok v m) {c : Console} (hroom : c.sink.room = none)
    (fuel : Nat) :
    ∃ last, (Console.Step.run ("print " ++ text ++ ";")).perform fuel c = some (some ⟨[]⟩, last) ∧
      last.machine.Alike { c.machine with written := #[.line v.text] } ∧
      last.sink.taken = c.sink.taken ++ (v.text ++ "\n").toUTF8.toList := by
  have halike := Machine.ready_alike { c.machine with written := #[] } ("print " ++ text ++ ";")
  have hrun := Machine.run_of_parsesTo h.parsesTo_print { c.machine with written := #[] } fuel
  generalize Machine.ready _ ("print " ++ text ++ ";") = ready at halike hrun
  have hexecute : executeAll (call fuel) fuel [.print e] ready =
      .ok .next (ready.write (.line v.text)) := by
    simp only [executeAll, execute, bind, Run.bind, hvalue]
    rfl
  have hwritten : (ready.write (.line v.text)).written = #[.line v.text] :=
    congrArg (·.push (.line v.text)) halike.written
  refine ⟨⟨ready.write (.line v.text), c.sink.behind (ready.write (.line v.text))⟩, ?_, ?_, ?_⟩
  · rw [Console.Step.perform, hrun, hexecute]
    rfl
  · exact ⟨halike.store, halike.scope, halike.clock, hwritten⟩
  · rw [Sink.behind, hwritten, (Sink.writeAll_of_unlimited hroom _).2]
    exact congrArg _ (List.append_nil _)

end Spells

end Treewalk
