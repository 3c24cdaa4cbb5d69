import Treewalk.Number.Nearest
import Treewalk.Source.Cursor
import Treewalk.Token.Basic

/-!
# Segments of source text

Source text falls into segments, one after the other and without gaps: blanks, comments, tokens,
characters that belong nowhere, and possibly a string without an end. `Cursor.segment?` reads the
first segment of the unread text, which is the longest one that starts there.
-/

namespace Treewalk

/-- A stretch of source text.

* `blank` is a single space, tab, carriage return or line feed;
* `comment` runs from two slashes to the end of the line;
* `token` is the text of a token, with its kind and the value it denotes;
* `stray` is a character that no token starts with;
* `unclosed` is the rest of the text from a quote that is never closed. -/
inductive Segment where
  | blank (c : Char)
  | comment (text : List Char)
  | token (kind : TokenKind) (text : List Char) (literal : Option Literal)
  | stray (c : Char)
  | unclosed (text : List Char)

/-- The characters of a segment. -/
def Segment.text : Segment → List Char
  | blank c => [c]
  | comment text => text
  | token _ text _ => text
  | stray c => [c]
  | unclosed text => text

/-! ## Classes of characters -/

/-- Characters that only separate tokens. -/
def isBlank (c : Char) : Bool :=
  c == ' ' || c == '\t' || c == '\r' || c == '\n'

/-- Characters that start a word. Only ASCII letters count. -/
def isWordStart (c : Char) : Bool :=
  c == '_' || c.isAlpha

/-- Characters that continue a word. Only ASCII letters and digits count. -/
def isWordChar (c : Char) : Bool :=
  c == '_' || c.isAlphanum

/-- The token that a single character makes. -/
def TokenKind.ofSymbol? : Char → Option TokenKind
  | '(' => some .leftParen
  | ')' => some .rightParen
  | '\x7b' => some .leftBrace
  | '\x7d' => some .rightBrace
  | ',' => some .comma
  | '.' => some .dot
  | '-' => some .minus
  | '+' => some .plus
  | ';' => some .semicolon
  | '/' => some .slash
  | '*' => some .star
  | '!' => some .bang
  | '=' => some .equal
  | '<' => some .less
  | '>' => some .greater
  | _ => none

/-- The token that a character makes together with an equals sign behind it. -/
def TokenKind.ofSymbolEqual? : Char → Option TokenKind
  | '!' => some .bangEqual
  | '=' => some .equalEqual
  | '<' => some .lessEqual
  | '>' => some .greaterEqual
  | _ => none

/-! ## Reading one segment -/

/-- Looks for the end of a string in the text behind its opening quote. The first part of the result
is the text up to and including the closing quote, the second one the characters that the string
denotes: a backslash stands for the character behind it, whichever that is. -/
def closeQuote? : List Char → Option (List Char × List Char)
  | [] => none
  | '"' :: _ => some (['"'], [])
  | ['\\'] => none
  | '\\' :: c :: rest => (closeQuote? rest).map fun (raw, value) => ('\\' :: c :: raw, c :: value)
  | c :: rest => (closeQuote? rest).map fun (raw, value) => (c :: raw, c :: value)

/-- Whether the text goes on with a point and a digit. -/
def startsFraction : List Char → Bool
  | '.' :: d :: _ => d.isDigit
  | _ => false

namespace Cursor

/-- Reads a string whose opening quote has been read. -/
def stringSegment (cur : Cursor) : Segment × Cursor :=
  match closeQuote? cur.rest with
  | some (raw, value) =>
    (.token .string ('"' :: raw) (some (.string (String.ofList value))), cur.skip raw)
  | none => (.unclosed ('"' :: cur.rest), cur.skip cur.rest)

/-- Reads a number. The point belongs to it only if a digit follows. -/
def numberSegment (cur : Cursor) : Segment × Cursor :=
  let (whole, cur) := cur.readWhile Char.isDigit
  if startsFraction cur.rest then
    let (fraction, cur) := (cur.skip ['.']).readWhile Char.isDigit
    let value := (Number.Decimal.ofDigits whole fraction).toFloat
    (.token .number (whole ++ '.' :: fraction) (some (.number value)), cur)
  else
    let value := (Number.Decimal.ofDigits whole []).toFloat
    (.token .number whole (some (.number value)), cur)

/-- Reads a word. -/
def wordSegment (cur : Cursor) : Segment × Cursor :=
  let (word, cur) := cur.readWhile isWordChar
  (.token (.ofWord word) word none, cur)

/-- Reads the rest of the line. -/
def commentSegment (cur : Cursor) : Segment × Cursor :=
  let (text, cur) := cur.readWhile (· != '\n')
  (.comment text, cur)

/-- Reads a symbol whose first character `c` has been read. -/
def symbolSegment (c : Char) (cur : Cursor) : Segment × Cursor :=
  match cur.peek?, TokenKind.ofSymbolEqual? c, TokenKind.ofSymbol? c with
  | some '=', some kind, _ => (.token kind [c, '='] none, cur.skip ['='])
  | _, _, some kind => (.token kind [c] none, cur)
  | _, _, none => (.stray c, cur)

/-- Reads one segment. -/
def segment? (cur : Cursor) : Option (Segment × Cursor) :=
  match cur.next? with
  | none => none
  | some (c, after) =>
    if isBlank c then some (.blank c, after)
    else if c == '"' then some after.stringSegment
    else if c == '/' && after.peek? == some '/' then some cur.commentSegment
    else if c.isDigit then some cur.numberSegment
    else if isWordStart c then some cur.wordSegment
    else some (after.symbolSegment c)

/-! ## A segment is the start of the unread text -/

/-- The cursor `after` is `cur` moved past `text`. -/
structure Moved (cur : Cursor) (text : List Char) (after : Cursor) : Prop where
  rest : cur.rest = text ++ after.rest
  position : after.position = cur.position.advance text

theorem Moved.trans {a b c : Cursor} {s t : List Char} (h₁ : Moved a s b) (h₂ : Moved b t c) :
    Moved a (s ++ t) c :=
  ⟨by rw [h₁.rest, h₂.rest, List.append_assoc], by rw [h₂.position, h₁.position]; simp⟩

theorem moved_next {cur after : Cursor} {c : Char} (h : cur.next? = some (c, after)) :
    Moved cur [c] after := by
  unfold next? at h
  split at h
  · simp at h
  · next d rest heq =>
    obtain ⟨rfl, rfl⟩ := by simpa using h
    exact ⟨by simp [heq], rfl⟩

theorem moved_skip {cur : Cursor} {text rest : List Char} (h : cur.rest = text ++ rest) :
    Moved cur text (cur.skip text) :=
  ⟨by simp [skip, h], rfl⟩

theorem moved_readWhile (p : Char → Bool) (cur : Cursor) :
    Moved cur (cur.readWhile p).1 (cur.readWhile p).2 := by
  rw [readWhile_eq]
  exact ⟨List.takeWhile_append_dropWhile.symm, rfl⟩

/-- The body of a string is the start of the text behind its opening quote. -/
theorem closeQuote?_eq_append {text raw value : List Char}
    (h : closeQuote? text = some (raw, value)) : ∃ rest, text = raw ++ rest := by
  fun_induction closeQuote? text generalizing raw value with
  | case1 => simp at h
  | case2 rest =>
    obtain ⟨rfl, rfl⟩ := by simpa using h
    exact ⟨rest, rfl⟩
  | case3 => simp at h
  | case4 c rest ih =>
    obtain ⟨⟨r, v⟩, hr, heq⟩ := Option.map_eq_some_iff.1 h
    obtain ⟨tail, rfl⟩ := ih hr
    exact ⟨tail, by simp at heq; simp [← heq.1]⟩
  | case5 c rest _ _ _ ih =>
    obtain ⟨⟨r, v⟩, hr, heq⟩ := Option.map_eq_some_iff.1 h
    obtain ⟨tail, rfl⟩ := ih hr
    exact ⟨tail, by simp at heq; simp [← heq.1]⟩

theorem moved_stringSegment (cur : Cursor) :
    ∃ text, cur.stringSegment.1.text = '"' :: text ∧ Moved cur text cur.stringSegment.2 := by
  unfold stringSegment
  split
  · next raw value h =>
    obtain ⟨rest, hrest⟩ := closeQuote?_eq_append h
    exact ⟨raw, rfl, moved_skip hrest⟩
  · exact ⟨cur.rest, rfl, moved_skip (List.append_nil _).symm⟩

theorem moved_numberSegment (cur : Cursor) :
    Moved cur cur.numberSegment.1.text cur.numberSegment.2 := by
  have whole := moved_readWhile Char.isDigit cur
  unfold numberSegment
  rcases h : cur.readWhile Char.isDigit with ⟨digits, after⟩
  simp only [h] at whole ⊢
  split
  · next hf =>
    have point : Moved after ['.'] (after.skip ['.']) := by
      unfold startsFraction at hf
      split at hf
      · next d tail heq => exact moved_skip heq
      · simp at hf
    simpa [Segment.text] using
      (whole.trans point).trans (moved_readWhile Char.isDigit (after.skip ['.']))
  · exact whole

theorem moved_symbolSegment (c : Char) (cur : Cursor) :
    ∃ text, (cur.symbolSegment c).1.text = c :: text ∧ Moved cur text (cur.symbolSegment c).2 := by
  unfold symbolSegment
  split
  · next heq _ =>
    refine ⟨['='], rfl, ?_⟩
    cases hr : cur.rest with
    | nil => simp [peek?, hr] at heq
    | cons d tail =>
      obtain rfl : d = '=' := by simpa [peek?, hr] using heq
      exact moved_skip hr
  · exact ⟨[], rfl, ⟨rfl, rfl⟩⟩
  · exact ⟨[], rfl, ⟨rfl, rfl⟩⟩

/-- Reading a segment moves the cursor past the characters of the segment. -/
theorem moved_segment {cur after : Cursor} {s : Segment} (h : cur.segment? = some (s, after)) :
    Moved cur s.text after := by
  unfold segment? at h
  split at h
  · simp at h
  · next c tail heq =>
    have first := moved_next heq
    split at h
    · obtain ⟨rfl, rfl⟩ := by simpa using h
      exact first
    split at h
    · next hq =>
      -- The quote has been read already, and the string goes on behind it.
      obtain ⟨text, htext, hmoved⟩ := moved_stringSegment tail
      obtain rfl : c = '"' := by simpa using hq
      rw [Option.some.injEq] at h
      rw [h] at htext hmoved
      rw [htext]
      exact first.trans hmoved
    split at h
    · rw [Option.some.injEq] at h
      have := moved_readWhile (· != '\n') cur
      simp only [commentSegment] at h
      cases h
      exact this
    split at h
    · rw [Option.some.injEq] at h
      have := moved_numberSegment cur
      rwa [h] at this
    split at h
    · rw [Option.some.injEq] at h
      have := moved_readWhile isWordChar cur
      simp only [wordSegment] at h
      cases h
      exact this
    · obtain ⟨text, htext, hmoved⟩ := moved_symbolSegment c tail
      rw [Option.some.injEq] at h
      rw [h] at htext hmoved
      rw [htext]
      exact first.trans hmoved

theorem isWordChar_of_isWordStart {c : Char} (h : isWordStart c) : isWordChar c := by
  simp only [isWordStart, isWordChar, Char.isAlphanum, Bool.or_eq_true] at *
  exact h.imp_right Or.inl

theorem readWhile_ne_nil {p : Char → Bool} {cur after : Cursor} {c : Char}
    (h : cur.next? = some (c, after)) (hc : p c) : (cur.readWhile p).1 ≠ [] := by
  have hr := (moved_next h).rest
  simp [readWhile_fst, hr, hc]

/-- No segment is empty, so that reading comes to an end. -/
theorem segment_text_ne_nil {cur after : Cursor} {s : Segment}
    (h : cur.segment? = some (s, after)) : s.text ≠ [] := by
  unfold segment? at h
  split at h
  · simp at h
  · next c tail heq =>
    split at h
    · obtain ⟨rfl, -⟩ := by simpa using h
      simp [Segment.text]
    split at h
    · obtain ⟨text, htext, -⟩ := moved_stringSegment tail
      rw [Option.some.injEq] at h
      rw [h] at htext
      simp [htext]
    split at h
    · next hc =>
      have : (c != '\n') = true := by
        obtain ⟨rfl, -⟩ := by simpa using hc
        decide
      have := @readWhile_ne_nil (· != '\n') _ _ _ heq this
      simp only [commentSegment, Option.some.injEq] at h
      cases h
      exact this
    split at h
    · next hd =>
      -- The run starts with the digit that was seen.
      have := readWhile_ne_nil heq hd
      simp only [numberSegment, Option.some.injEq] at h
      split at h <;> cases h
      · simp [Segment.text]
      · exact this
    split at h
    · next hw =>
      have := readWhile_ne_nil heq (isWordChar_of_isWordStart hw)
      simp only [wordSegment, Option.some.injEq] at h
      cases h
      exact this
    · obtain ⟨text, htext, -⟩ := moved_symbolSegment c tail
      rw [Option.some.injEq] at h
      rw [h] at htext
      simp [htext]

/-- A segment is never empty, so less is left to read behind it. -/
theorem rest_length_lt {cur after : Cursor} {s : Segment} (h : cur.segment? = some (s, after)) :
    after.rest.length < cur.rest.length := by
  have hlen := congrArg List.length (moved_segment h).rest
  have hpos := List.length_pos_iff.2 (segment_text_ne_nil h)
  simp only [List.length_append] at hlen
  omega

end Cursor

end Treewalk
