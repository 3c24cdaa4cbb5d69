import Treewalk.Proofs.Printing

/-!
# String literals

Every text is denoted by string literals: its characters between quotes, some of them behind a
backslash, the quotes and the backslashes among them always. A literal is scanned to one token,
whatever stands behind it, and what it denotes is printed as it is. There are no other string
tokens.
-/

namespace Treewalk

open Lexical

/-! ## Literals -/

/-- A character as it stands in a string literal, behind a backslash or not. Quotes and backslashes
always stand behind one. -/
structure SpeltChar where
  char : Char
  escaped : Bool
  special : char = '"' ∨ char = '\\' → escaped = true

def SpeltChar.text (c : SpeltChar) : List Char :=
  if c.escaped then ['\\', c.char] else [c.char]

/-- A string literal for a text: a choice which characters of the text to escape. -/
structure StringLiteral (v : String) where
  chars : List SpeltChar
  denotes : chars.map SpeltChar.char = v.toList

namespace StringLiteral

variable {v : String}

/-- The characters between the quotes. -/
def inside (q : StringLiteral v) : List Char :=
  q.chars.flatMap SpeltChar.text

def text (q : StringLiteral v) : String :=
  String.ofList ('"' :: (q.inside ++ ['"']))

/-- The literal in which all characters are escaped. -/
def escapeAll (v : String) : StringLiteral v :=
  ⟨v.toList.map fun c => ⟨c, true, fun _ => rfl⟩, by simp [Function.comp_def]⟩

end StringLiteral

/-- The text without the backslashes that escape the character behind them. -/
def unescaped : List Char → List Char
  | [] => []
  | '\\' :: c :: rest => c :: unescaped rest
  | c :: rest => c :: unescaped rest

/-- Removing backslashes gives back a character, escaped or not. -/
theorem unescaped_text_append (c : SpeltChar) (rest : List Char) :
    unescaped (c.text ++ rest) = c.char :: unescaped rest := by
  obtain ⟨c, escaped, special⟩ := c
  cases escaped with
  | true => simp [SpeltChar.text, unescaped]
  | false =>
    have hslash : c ≠ '\\' := fun h => absurd (special (.inr h)) (by simp)
    rw [SpeltChar.text, if_neg (by simp), List.singleton_append,
      unescaped.eq_3 _ _ fun _ _ h => absurd h hslash]

/-- What stands between the quotes is the text with backslashes. -/
theorem StringLiteral.unescaped_inside {v : String} (q : StringLiteral v) :
    unescaped q.inside = v.toList := by
  rw [← q.denotes, inside]
  induction q.chars with
  | nil => rfl
  | cons c chars ih => rw [List.flatMap_cons, unescaped_text_append, ih, List.map_cons]

/-! ## Literals and the lexical grammar -/

/-- One more character in front of the body of a string. -/
theorem stringBody_text_append (c : SpeltChar) {raw value : List Char} (h : StringBody raw value) :
    StringBody (c.text ++ raw) (c.char :: value) := by
  obtain ⟨c, escaped, special⟩ := c
  cases escaped with
  | true => exact .escape c h
  | false =>
    refine .plain (fun hc => ?_) (fun hc => ?_) h
    · exact absurd (special (.inl hc)) (by simp)
    · exact absurd (special (.inr hc)) (by simp)

/-- What stands between the quotes, with the quote at its end, is the body of a string. -/
theorem StringLiteral.stringBody {v : String} (q : StringLiteral v) :
    StringBody (q.inside ++ ['"']) v.toList := by
  rw [← q.denotes, inside]
  induction q.chars with
  | nil => exact .close
  | cons c chars ih =>
    rw [List.flatMap_cons, List.append_assoc, List.map_cons]
    exact stringBody_text_append c ih

/-- What the grammar allows behind an opening quote is what literals have there. -/
theorem exists_literal {raw value : List Char} (h : StringBody raw value) :
    ∃ q : StringLiteral (String.ofList value), raw = q.inside ++ ['"'] := by
  suffices ∃ chars : List SpeltChar, raw = chars.flatMap SpeltChar.text ++ ['"'] ∧
      chars.map SpeltChar.char = value by
    obtain ⟨chars, hraw, hvalue⟩ := this
    exact ⟨⟨chars, by simpa using hvalue⟩, hraw⟩
  induction h with
  | close => exact ⟨[], rfl, rfl⟩
  | escape c _ ih =>
    obtain ⟨chars, rfl, rfl⟩ := ih
    exact ⟨⟨c, true, fun _ => rfl⟩ :: chars, rfl, rfl⟩
  | @plain _ _ c hquote hslash _ ih =>
    obtain ⟨chars, rfl, rfl⟩ := ih
    exact ⟨⟨c, false, fun h => (h.elim hquote hslash).elim⟩ :: chars, rfl, rfl⟩

theorem StringLiteral.lexeme {v : String} (q : StringLiteral v) :
    Lexeme .string q.text.toList (some (.string v)) := by
  simpa [text] using Lexeme.string q.stringBody

/-- A literal is read up to its closing quote, whatever stands behind it. -/
theorem StringLiteral.first_append {v : String} (q : StringLiteral v) (rest : List Char) :
    First (q.text.toList ++ rest) (.token .string q.text.toList (some (.string v))) := by
  cases rest with
  | nil => simpa using q.lexeme.first
  | cons c rest =>
    refine q.lexeme.first.append_cons (by simp) (fun other _ tail htext => ?_) rest
    exact ⟨q.inside ++ ['"'] ++ c :: tail, by simp [htext, text]⟩

/-! ## Scanning -/

/-- A literal is scanned to one token. -/
theorem StringLiteral.scan_text {v : String} (q : StringLiteral v) :
    (scan q.text).tokens =
      [⟨.string, q.text, some (.string v), 1⟩, .endOfInput (q.text.toList.count '\n' + 1)] ∧
    (scan q.text).errors = [] := by
  obtain ⟨htokens, herrors⟩ := scan_of_segmentation q.lexeme.segmentation
  rw [htokens, herrors]
  simp [Segment.placed, Segment.token?, Segment.error?, Position.behind]

/-- What stands behind a literal is scanned as if it stood alone, further down and to the right. -/
theorem StringLiteral.scan_append {v : String} (q : StringLiteral v) (rest : String) :
    (scan (q.text ++ rest)).tokens = ⟨.string, q.text, some (.string v), 1⟩ ::
      (scan rest).tokens.map (Token.down (q.text.toList.count '\n')) ∧
    (scan (q.text ++ rest)).errors =
      (scan rest).errors.map (LexicalError.after q.text.toList) := by
  have hscan := scan_of_first (s := .token .string q.text.toList (some (.string v)))
    (q.first_append rest.toList)
  simpa [Segment.text, Segment.token?, Segment.error?, Position.start] using hscan

/-! ## Printing -/

namespace StringLiteral

variable {v : String} (q : StringLiteral v)

/-- The program that prints what the literal denotes. -/
def printed : String :=
  "print " ++ q.text ++ ";"

theorem spells : Spells q.text [⟨.string, q.text, some (.string v), 1⟩] (.literal (.string v)) := by
  obtain ⟨htokens, herrors⟩ := q.scan_append ";"
  rw [scan_semicolon.1] at htokens
  rw [scan_semicolon.2] at herrors
  exact ⟨herrors, ⟨_, rfl, congrArg List.dropLast htokens⟩, .unary (.literal (.string rfl rfl))⟩

/-- On a console whose sink has unlimited room, the text and a line feed are written. -/
theorem perform_printed {c : Console} (h : c.sink.room = none) (fuel : Nat) :
    ∃ last, (Console.Step.run q.printed).perform fuel c = some (some ⟨[]⟩, last) ∧
      last.machine.Alike { c.machine with written := #[.line v] } ∧
      last.sink.taken = c.sink.taken ++ (v ++ "\n").toUTF8.toList :=
  q.spells.perform_print (fun _ _ => rfl) h fuel

end StringLiteral

/-! ## What string tokens denote -/

/-- Every string token is one of these literals. -/
theorem exists_literal_of_mem_scan {source : String} {t : Token} (ht : t ∈ (scan source).tokens)
    (hkind : t.kind = .string) :
    ∃ (v : String) (q : StringLiteral v), t.lexeme = q.text ∧ t.literal = some (.string v) := by
  have hmem : t ∈ (scan source).tokens.dropLast := by
    rw [← scan_tokens_filter]
    exact List.mem_filter.2 ⟨ht, by simp [hkind]⟩
  have hlexeme := lexeme_of_mem_scan hmem
  -- The kind tells by which rule of the lexical grammar the token was read.
  generalize htext : t.lexeme.toList = text at hlexeme
  generalize hliteral : t.literal = literal at hlexeme ⊢
  rw [hkind] at hlexeme
  cases hlexeme with
  | symbol hsymbol => exact absurd hsymbol (by decide)
  | reserved hreserved => exact absurd hreserved (by decide)
  | string hbody =>
    obtain ⟨q, rfl⟩ := exists_literal hbody
    exact ⟨_, q, String.ext (by simp [htext, StringLiteral.text]), rfl⟩

/-- Every text has literals, and each of them is scanned to one token that denotes the text,
whatever stands behind it, and is printed as the text and a line feed. Conversely the tokens of
strings are literals, and denote what stands between their quotes without escaping backslashes. -/
theorem string_literals_denote_texts :
    (∀ v : String, Nonempty (StringLiteral v) ∧ ∀ q : StringLiteral v,
      ((scan q.text).tokens =
          [⟨.string, q.text, some (.string v), 1⟩,
            .endOfInput (q.text.toList.count '\n' + 1)] ∧
        (scan q.text).errors = []) ∧
      (∀ rest : String,
        (scan (q.text ++ rest)).tokens = ⟨.string, q.text, some (.string v), 1⟩ ::
          (scan rest).tokens.map (Token.down (q.text.toList.count '\n')) ∧
        (scan (q.text ++ rest)).errors =
          (scan rest).errors.map (LexicalError.after q.text.toList)) ∧
      ∀ (c : Console) (fuel : Nat), c.sink.room = none →
        ∃ last, (Console.Step.run ("print " ++ q.text ++ ";")).perform fuel c =
            some (some ⟨[]⟩, last) ∧
          last.machine.Alike { c.machine with written := #[.line v] } ∧
          last.sink.taken = c.sink.taken ++ (v ++ "\n").toUTF8.toList) ∧
    ∀ (source : String), ∀ t ∈ (scan source).tokens, t.kind = .string →
      (∃ inside, t.lexeme = String.ofList ('"' :: (inside ++ ['"'])) ∧
        t.literal = some (.string (String.ofList (unescaped inside)))) ∧
      ∃ (v : String) (q : StringLiteral v), t.lexeme = q.text ∧ t.literal = some (.string v) := by
  refine ⟨fun v => ⟨⟨.escapeAll v⟩, fun q => ?_⟩, fun source t ht hkind => ?_⟩
  · exact ⟨q.scan_text, q.scan_append, fun c fuel hroom => q.perform_printed hroom fuel⟩
  · obtain ⟨v, q, hlexeme, hliteral⟩ := exists_literal_of_mem_scan ht hkind
    refine ⟨⟨q.inside, hlexeme, ?_⟩, v, q, hlexeme, hliteral⟩
    rw [hliteral, q.unescaped_inside, String.ofList_toList]

/-- A letter, a quote and a backslash that are escaped, and a line feed that is not. -/
theorem string_literals_denote_texts_with_escapes :
    let q : StringLiteral "a\"\\\n" :=
      ⟨[⟨'a', true, fun _ => rfl⟩, ⟨'"', true, fun _ => rfl⟩, ⟨'\\', true, fun _ => rfl⟩,
        ⟨'\n', false, by decide⟩], rfl⟩
    let t : Token := ⟨.string, q.text, some (.string "a\"\\\n"), 1⟩
    q.text = "\"\\a\\\"\\\\\n\"" ∧
    (scan (q.text ++ "+ \"")).tokens = [t, ⟨.plus, "+", none, 2⟩, .endOfInput 2] ∧
    (scan (q.text ++ "+ \"")).errors = [.unterminatedString ⟨2, 4⟩] ∧
    (∃ last, (Console.Step.run ("print " ++ q.text ++ ";")).perform 0
        ⟨.initial (.startingAt 0), .empty none⟩ = some (some ⟨[]⟩, last) ∧
      last.sink.taken = [97, 34, 92, 10, 10]) ∧
    t ∈ (scan q.text).tokens ∧
    ∃ inside, t.lexeme = String.ofList ('"' :: (inside ++ ['"'])) ∧
      t.literal = some (.string (String.ofList (unescaped inside))) := by
  intro q t
  obtain ⟨htexts, htokens⟩ := string_literals_denote_texts
  obtain ⟨-, hliterals⟩ := htexts "a\"\\\n"
  obtain ⟨halone, hbefore, hprint⟩ := hliterals q
  have hmem : t ∈ (scan q.text).tokens := by
    rw [halone.1]
    exact List.mem_cons_self
  refine ⟨by decide +kernel, ?_, ?_, ?_, hmem, (htokens _ t hmem rfl).1⟩
  · exact (hbefore "+ \"").1.trans (by decide +kernel)
  · exact (hbefore "+ \"").2.trans (by decide +kernel)
  · obtain ⟨last, hrun, -, htaken⟩ := hprint ⟨.initial (.startingAt 0), .empty none⟩ 0 rfl
    exact ⟨last, hrun, htaken.trans (by decide +kernel)⟩

end Treewalk
