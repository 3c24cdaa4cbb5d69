import Treewalk.Proofs.Printing
import Treewalk.Proofs.Texts.ReadBack

/-!
# Numbers as source text

The text of a finite number is a number token with a minus sign in front of it or not. As an
expression it has the number as its value, so that it is printed as it is.
-/

namespace Treewalk

open Lexical

/-! ## Numbers and the lexical grammar -/

/-- What is read as a decimal is a number token with the nearest double as its value. -/
theorem Lexical.Lexeme.ofDecimal {text : List Char} {d : Number.Decimal}
    (h : Number.Decimal.ofText? text = some d) :
    Lexeme .number text (some (.number d.toFloat)) := by
  have htext := List.takeWhile_append_dropWhile (p := Char.isDigit) (l := text)
  have hwhole : ∀ c ∈ text.takeWhile Char.isDigit, c.isDigit :=
    List.all_eq_true.1 List.all_takeWhile
  simp only [Number.Decimal.ofText?] at h
  generalize text.takeWhile Char.isDigit = whole at h htext hwhole
  generalize text.dropWhile Char.isDigit = rest at h htext
  subst htext
  split at h
  · cases h
  next hne =>
    obtain rfl := Option.some.inj h
    rw [List.append_nil]
    exact .whole hne hwhole
  next fraction hne =>
    split at h
    next hfraction =>
      obtain rfl := Option.some.inj h
      obtain ⟨hne', hall⟩ : fraction ≠ [] ∧ ∀ c ∈ fraction, c.isDigit := by simpa using hfraction
      exact .fraction hne hwhole hne' hall
    · cases h
  · cases h

/-- A token that starts with a digit has nothing in it but digits and a point. -/
theorem Lexical.Lexeme.chars_of_digit {kind : TokenKind} {c : Char} {cs : List Char}
    {literal : Option Literal} (h : Lexeme kind (c :: cs) literal) (hc : c.isDigit) :
    ∀ d ∈ c :: cs, d.isDigit ∨ d = '.' := by
  have hread : (Cursor.numberSegment ⟨c :: cs, .start⟩).1 = .token kind (c :: cs) literal :=
    Cursor.eq_of_first (Cursor.segment?_digit hc) h.first
  have hdigits {text : List Char} : ∀ d ∈ text.takeWhile Char.isDigit, d.isDigit ∨ d = '.' :=
    fun d hd => .inl (List.all_eq_true.1 List.all_takeWhile d hd)
  rw [Cursor.numberSegment_fst] at hread
  split at hread
  · obtain ⟨-, htext, -⟩ := Segment.token.inj hread
    rw [← htext]
    exact List.forall_mem_append.2 ⟨hdigits, List.forall_mem_cons.2 ⟨.inr rfl, hdigits⟩⟩
  · obtain ⟨-, htext, -⟩ := Segment.token.inj hread
    rw [← htext]
    exact hdigits

/-- A number is read up to a character that cannot belong to it. -/
theorem first_number_append {text : List Char} {d : Number.Decimal}
    (h : Number.Decimal.ofText? text = some d) {c : Char} (hdigit : ¬c.isDigit) (hpoint : c ≠ '.')
    (more : List Char) :
    First (text ++ c :: more) (.token .number text (some (.number d.toFloat))) := by
  obtain ⟨first, rest, rfl, hfirst⟩ := Number.Decimal.head_of_ofText? (Option.isSome_of_eq_some h)
  refine (Lexeme.ofDecimal h).first.append_cons (by simp) (fun other hother tail htext => ?_) more
  -- What would be longer starts with the same digit, and has the character in it.
  cases hother with
  | blank => simp [Segment.text] at htext
  | comment =>
    obtain ⟨rfl, -⟩ := List.cons.inj htext
    exact absurd hfirst (by decide)
  | token hlexeme =>
    rw [Segment.text] at htext
    subst htext
    exact ((hlexeme.chars_of_digit hfirst c (by simp)).elim hdigit hpoint).elim

/-- A minus sign is a token, whatever stands behind it. -/
theorem first_minus (rest : List Char) : First ('-' :: rest) (.token .minus ['-'] none) := by
  have hsymbol : Cursor.symbolSegment '-' ⟨rest, Position.start.step '-'⟩ =
      (.token .minus ['-'] none, ⟨rest, Position.start.step '-'⟩) := by
    unfold Cursor.symbolSegment
    split <;> simp_all [TokenKind.ofSymbolEqual?, TokenKind.ofSymbol?]
  have hread : Cursor.segment? ⟨'-' :: rest, .start⟩ =
      some (Cursor.symbolSegment '-' ⟨rest, Position.start.step '-'⟩) :=
    Cursor.segment?_symbol (by decide) fun h => absurd h (by decide)
  exact Cursor.segment?_first (hread.trans (congrArg some hsymbol))

/-! ## Scanning -/

/-- A number token is scanned to itself, in front of a semicolon. -/
theorem scan_number {text : List Char} {d : Number.Decimal}
    (h : Number.Decimal.ofText? text = some d) :
    (scan (String.ofList text ++ ";")).tokens =
      [⟨.number, String.ofList text, some (.number d.toFloat), 1⟩, ⟨.semicolon, ";", none, 1⟩,
        .endOfInput 1] ∧
    (scan (String.ofList text ++ ";")).errors = [] := by
  -- There is no line feed in a number.
  have hline : text.count '\n' = 0 := by
    refine List.count_eq_zero.2 fun hmem => ?_
    have hchar := Number.Decimal.isTextChar_of_ofText? (Option.isSome_of_eq_some h) _ hmem
    exact absurd hchar (by decide)
  have hfirst : First (text ++ ";".toList) (.token .number text (some (.number d.toFloat))) :=
    first_number_append h (by decide) (by decide) []
  obtain ⟨htokens, herrors⟩ := scan_of_first (s := .token .number text _) hfirst
  rw [Segment.text, hline, scan_semicolon.1] at htokens
  rw [scan_semicolon.2] at herrors
  exact ⟨htokens, herrors⟩

/-- A minus sign is a token, whatever stands behind it. -/
theorem scan_minus (rest : String) :
    (scan ("-" ++ rest)).tokens = ⟨.minus, "-", none, 1⟩ :: (scan rest).tokens ∧
    (scan ("-" ++ rest)).errors = (scan rest).errors.map (LexicalError.after ['-']) := by
  obtain ⟨htokens, herrors⟩ := scan_of_first (s := .token .minus ['-'] none)
    (first_minus rest.toList)
  have hdown : Token.down (['-'].count '\n') = id := rfl
  rw [Segment.text, hdown, List.map_id] at htokens
  exact ⟨htokens, herrors⟩

/-! ## Numbers with and without a minus sign -/

/-- A number token, as a literal, or a minus sign and a number token, as the negation of one. -/
inductive SignedNumber : List Token → Expr → Prop where
  | plain {t : Token} {x : Float} : t.kind = .number → t.literal = some (.number x) →
      SignedNumber [t] (.literal (.number x))
  | negated {op t : Token} {x : Float} : op.kind = .minus → t.kind = .number →
      t.literal = some (.number x) → SignedNumber [op, t] (.unary op (.literal (.number x)))

/-- Both forms are derived by the grammar. -/
theorem SignedNumber.expression {ts : List Token} {e : Expr} (h : SignedNumber ts e) :
    Grammar.Expression ts e := by
  cases h with
  | plain hkind hliteral => exact .unary (.literal (.number hkind hliteral))
  | negated hop hkind hliteral =>
    exact .unary (.operator (.inr hop) (.literal (.number hkind hliteral)))

/-- The text of a finite number is scanned to a number, with its sign, that has this value. -/
theorem exists_signedNumber {x : Float} (h : x.isFinite) :
    ∃ ts e, SignedNumber ts e ∧
      String.join (ts.map Token.lexeme) = (Value.number x).text ∧
      (scan ((Value.number x).text ++ ";")).tokens =
        ts ++ [⟨.semicolon, ";", none, 1⟩, .endOfInput 1] ∧
      (scan ((Value.number x).text ++ ";")).errors = [] ∧
      ∀ apply m, evaluate apply e m = .ok (.number x) m := by
  have hvalue : (Value.number x).text = Number.text x := Number.valueText_eq_text x
  obtain ⟨digits, d, hread, ⟨htext, rfl⟩ | ⟨htext, rfl⟩⟩ := Number.exists_decimal_of_isFinite h
  · have htext : Number.text d.toFloat = String.ofList digits :=
      String.ext (htext.trans String.toList_ofList.symm)
    obtain ⟨htokens, herrors⟩ := scan_number hread
    rw [hvalue, htext]
    exact ⟨_, _, .plain rfl rfl, by simp, htokens, herrors, fun _ _ => rfl⟩
  · have htext : Number.text (-d.toFloat) = "-" ++ String.ofList digits :=
      String.ext (htext.trans (by simp))
    obtain ⟨htokens, herrors⟩ := scan_number hread
    obtain ⟨hminus, hminus'⟩ := scan_minus (String.ofList digits ++ ";")
    rw [htokens] at hminus
    rw [herrors] at hminus'
    rw [hvalue, htext, String.append_assoc]
    have hnegated := @SignedNumber.negated ⟨.minus, "-", none, 1⟩
      ⟨.number, String.ofList digits, some (.number d.toFloat), 1⟩ d.toFloat rfl rfl rfl
    exact ⟨_, _, hnegated, by simp, hminus, hminus', fun _ _ => rfl⟩

/-! ## Printing -/

/-- The text of every finite number, with a semicolon behind it, is scanned without errors to a
number token with a minus sign in front of it or not, and parsed to a literal or to the negation of
one, of which the number is the value. So the unit that prints this text writes just the text and a
line feed. -/
theorem displayed_numbers_read_back {x : Float} (h : x.isFinite) :
    ∃ ts e, SignedNumber ts e ∧
      String.join (ts.map Token.lexeme) = (Value.number x).text ∧
      (scan ((Value.number x).text ++ ";")).tokens =
        ts ++ [⟨.semicolon, ";", none, 1⟩, .endOfInput 1] ∧
      (scan ((Value.number x).text ++ ";")).errors = [] ∧
      ParsesTo ((Value.number x).text ++ ";") [.expr e] ∧
      (∀ apply m, evaluate apply e m = .ok (.number x) m) ∧
      ∀ (c : Console) (fuel : Nat), c.sink.room = none →
        ∃ last, (Console.Step.run ("print " ++ (Value.number x).text ++ ";")).perform fuel c =
            some (some ⟨[]⟩, last) ∧
          last.machine.Alike { c.machine with written := #[.line (Value.number x).text] } ∧
          last.sink.taken = c.sink.taken ++ ((Value.number x).text ++ "\n").toUTF8.toList := by
  obtain ⟨ts, e, hsigned, hlexemes, htokens, herrors, hevaluate⟩ := exists_signedNumber h
  have hspells : Spells (Value.number x).text ts e := by
    refine ⟨herrors, ⟨⟨.semicolon, ";", none, 1⟩, rfl, ?_⟩, hsigned.expression⟩
    rw [htokens, List.append_cons, List.dropLast_concat]
  exact ⟨ts, e, hsigned, hlexemes, htokens, herrors, hspells.parsesTo, hevaluate,
    fun c fuel hroom => hspells.perform_print hevaluate hroom fuel⟩

/-- A number below zero that has a fraction, and the zero with a sign. -/
theorem displayed_numbers_read_back_below_zero :
    let tenth := Float.ofBits 0xBFB999999999999A
    let zero := Float.ofBits 0x8000000000000000
    tenth.isFinite ∧ (Value.number tenth).text = "-0.1" ∧
    (∃ ts e, SignedNumber ts e ∧ String.join (ts.map Token.lexeme) = "-0.1" ∧
      ParsesTo "-0.1;" [.expr e] ∧ ∀ apply m, evaluate apply e m = .ok (.number tenth) m) ∧
    zero.isFinite ∧ (Value.number zero).text = "-0" ∧
    ∃ last, (Console.Step.run "print -0;").perform 0 ⟨.initial (.startingAt 0), .empty none⟩ =
        some (some ⟨[]⟩, last) ∧
      last.sink.taken = [45, 48, 10] := by
  intro tenth zero
  have htenth : tenth.isFinite := by decide +kernel
  have htext : (Value.number tenth).text = "-0.1" := by decide +kernel
  have hzero : zero.isFinite := by decide +kernel
  have htext' : (Value.number zero).text = "-0" := by decide +kernel
  obtain ⟨ts, e, hsigned, hlexemes, -, -, hparses, hevaluate, -⟩ :=
    displayed_numbers_read_back htenth
  obtain ⟨-, -, -, -, -, -, -, -, hprint⟩ := displayed_numbers_read_back hzero
  obtain ⟨last, hrun, -, htaken⟩ := hprint ⟨.initial (.startingAt 0), .empty none⟩ 0 rfl
  rw [htext] at hlexemes hparses
  rw [htext'] at hrun htaken
  exact ⟨htenth, htext, ⟨ts, e, hsigned, hlexemes, hparses, hevaluate⟩, hzero, htext', last, hrun,
    htaken.trans (by decide +kernel)⟩

end Treewalk
