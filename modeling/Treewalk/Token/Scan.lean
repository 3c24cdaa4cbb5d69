import Treewalk.Error
import Treewalk.Token.Segment

/-!
# From source text to tokens

`scan` cuts a text into segments and keeps the tokens and the errors among them. Bad spelling never
stops it: a stray character or an unclosed string is reported and left out.
-/

namespace Treewalk

/-- Reads all segments of the unread text, each with the position at which it starts. What is left
is the cursor behind the last one. -/
def Cursor.readSegments (cur : Cursor) : List (Position × Segment) × Cursor :=
  match h : cur.segment? with
  | none => ([], cur)
  | some (s, after) =>
    have := Cursor.rest_length_lt h
    let (segments, last) := after.readSegments
    ((cur.position, s) :: segments, last)
termination_by cur.rest.length

/-- The token that a segment makes at a position. -/
def Segment.token? (p : Position) : Segment → Option Token
  | token kind text literal => some ⟨kind, String.ofList text, literal, p.line⟩
  | _ => none

/-- The error that a segment makes at a position. -/
def Segment.error? (p : Position) : Segment → Option LexicalError
  | stray c => some (.unexpectedCharacter c p)
  | unclosed _ => some (.unterminatedString p)
  | _ => none

/-- The tokens of a text and the errors in its spelling, both in the order of the text. -/
structure Scan where
  tokens : List Token
  errors : List LexicalError

/-- Scans a text. The last token marks the end of the input, on the line that the cursor has come
to. -/
def scan (source : String) : Scan :=
  let (segments, last) := (Cursor.start source.toList).readSegments
  { tokens := segments.filterMap (fun (p, s) => s.token? p) ++ [.endOfInput last.position.line]
    errors := segments.filterMap fun (p, s) => s.error? p }

end Treewalk
