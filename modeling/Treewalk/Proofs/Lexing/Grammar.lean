import Treewalk.Token.Scan

/-!
# The lexical grammar

What the segments of a source text may be, said without reading: which texts are tokens and what
they denote, which segment a text starts with, and how a whole text falls into segments. The first
segment of a text is the longest one that the grammar has; only where it has none is a character
stray, or a string unclosed.
-/

namespace Treewalk

namespace Lexical

/-- The text of a string behind its opening quote, up to and including the closing one, and the
characters that it denotes. A backslash takes the character behind it, whichever that is. -/
inductive StringBody : (raw value : List Char) → Prop where
  | close : StringBody ['"'] []
  | escape {raw value : List Char} (c : Char) :
      StringBody raw value → StringBody ('\\' :: c :: raw) (c :: value)
  | plain {raw value : List Char} {c : Char} :
      c ≠ '"' → c ≠ '\\' → StringBody raw value → StringBody (c :: raw) (c :: value)

/-- The kinds of the tokens that are written with symbols. -/
def symbols : List TokenKind :=
  [.leftParen, .rightParen, .leftBrace, .rightBrace, .comma, .dot, .minus, .plus, .semicolon,
    .slash, .star, .bang, .bangEqual, .equal, .equalEqual, .greater, .greaterEqual, .less,
    .lessEqual]

/-- The texts of the tokens, with their kinds and the values that they denote. -/
inductive Lexeme : TokenKind → List Char → Option Literal → Prop where
  | symbol {kind : TokenKind} : kind ∈ symbols → Lexeme kind kind.text.toList none
  | reserved {kind : TokenKind} : kind ∈ TokenKind.reserved → Lexeme kind kind.text.toList none
  | identifier {c : Char} {cs : List Char} : isWordStart c → (∀ d ∈ cs, isWordChar d) →
      (∀ kind ∈ TokenKind.reserved, kind.text.toList ≠ c :: cs) →
      Lexeme .identifier (c :: cs) none
  | whole {ds : List Char} : ds ≠ [] → (∀ d ∈ ds, d.isDigit) →
      Lexeme .number ds (some (.number (Number.Decimal.ofDigits ds []).toFloat))
  | fraction {ds fs : List Char} : ds ≠ [] → (∀ d ∈ ds, d.isDigit) →
      fs ≠ [] → (∀ d ∈ fs, d.isDigit) →
      Lexeme .number (ds ++ '.' :: fs) (some (.number (Number.Decimal.ofDigits ds fs).toFloat))
  | string {raw value : List Char} : StringBody raw value →
      Lexeme .string ('"' :: raw) (some (.string (String.ofList value)))

/-- The segments that are not errors. -/
inductive Proper : Segment → Prop where
  | blank {c : Char} : c ∈ [' ', '\t', '\r', '\n'] → Proper (.blank c)
  | comment {cs : List Char} : '\n' ∉ cs → Proper (.comment ('/' :: '/' :: cs))
  | token {kind : TokenKind} {text : List Char} {literal : Option Literal} :
      Lexeme kind text literal → Proper (.token kind text literal)

/-- The segment that a text starts with. -/
inductive First : List Char → Segment → Prop where
  | longest {text : List Char} {s : Segment} : Proper s → s.text <+: text →
      (∀ other, Proper other → other.text <+: text → other.text.length ≤ s.text.length) →
      First text s
  | stray {c : Char} {rest : List Char} : c ≠ '"' →
      (∀ other, Proper other → ¬other.text <+: c :: rest) → First (c :: rest) (.stray c)
  | unclosed {rest : List Char} : (∀ other, Proper other → ¬other.text <+: '"' :: rest) →
      First ('"' :: rest) (.unclosed ('"' :: rest))

/-- How a text falls into segments, from its start to its end. -/
inductive Segmentation : List Char → List Segment → Prop where
  | nil : Segmentation [] []
  | cons {s : Segment} {rest : List Char} {segments : List Segment} :
      First (s.text ++ rest) s → Segmentation rest segments →
      Segmentation (s.text ++ rest) (s :: segments)

end Lexical

/-! ## Places -/

/-- The position right behind a text: one line for each line feed in it, and one column for each
character behind the last of them. -/
def Position.behind (text : List Char) : Position :=
  ⟨text.count '\n' + 1, (text.reverse.takeWhile (· != '\n')).length + 1⟩

/-- The segments behind a text, each with its position. -/
def Segment.placed (before : List Char) : List Segment → List (Position × Segment)
  | [] => []
  | s :: segments => (.behind before, s) :: placed (before ++ s.text) segments

end Treewalk
