import Treewalk.Source.Position

/-!
# A cursor over source text

A cursor holds the text still to be read and the position of its first character. It moves in two
ways, by one character or over a run of characters, and the position follows.
-/

namespace Treewalk

/-- The unread part of a source text and where it starts. -/
structure Cursor where
  rest : List Char
  position : Position

namespace Cursor

/-- The cursor in front of a whole text. -/
def start (text : List Char) : Cursor := ⟨text, .start⟩

/-- The next character, which stays unread. -/
def peek? (cur : Cursor) : Option Char := cur.rest.head?

/-- Reads one character. -/
def next? (cur : Cursor) : Option (Char × Cursor) :=
  match cur.rest with
  | [] => none
  | c :: rest => some (c, ⟨rest, cur.position.step c⟩)

/-- Moves past `text`, which must be what comes next. -/
def skip (text : List Char) (cur : Cursor) : Cursor :=
  ⟨cur.rest.drop text.length, cur.position.advance text⟩

/-- Reads characters as long as they satisfy `p`. -/
def readWhile (p : Char → Bool) (cur : Cursor) : List Char × Cursor :=
  go [] cur.rest cur.position
where
  /-- Goes on from a position, with what has been read so far, the last character first. -/
  go (read : List Char) : List Char → Position → List Char × Cursor
    | [], pos => (read.reverse, ⟨[], pos⟩)
    | c :: rest, pos =>
      if p c then
        -- Each character counts for the column, and a line feed then starts a line.
        let counted : Position := ⟨pos.line, pos.column + 1⟩
        go (c :: read) rest (if c = '\n' then ⟨counted.line + 1, 1⟩ else counted)
      else (read.reverse, ⟨c :: rest, pos⟩)

/-- Reading a run moves the cursor past it. -/
theorem readWhile_go_eq (p : Char → Bool) (read rest : List Char) (pos : Position) :
    readWhile.go p read rest pos =
      (read.reverse ++ rest.takeWhile p, ⟨rest.dropWhile p, pos.advance (rest.takeWhile p)⟩) := by
  induction rest generalizing read pos with
  | nil => simp [readWhile.go]
  | cons c rest ih =>
    by_cases hc : p c
    · -- Counting the column first makes no difference, because a line feed sets it anew.
      simp only [readWhile.go, hc, if_true, ih, List.takeWhile_cons_of_pos,
        List.dropWhile_cons_of_pos, Position.advance_cons, Position.step, List.reverse_cons,
        List.append_assoc, List.singleton_append]
    · simp [readWhile.go, hc]

/-- What is read is the longest run of characters that satisfy `p`, and the cursor moves past it. -/
theorem readWhile_eq (p : Char → Bool) (cur : Cursor) :
    cur.readWhile p = (cur.rest.takeWhile p,
      ⟨cur.rest.dropWhile p, cur.position.advance (cur.rest.takeWhile p)⟩) := by
  rw [readWhile, readWhile_go_eq]
  rfl

theorem readWhile_fst (p : Char → Bool) (cur : Cursor) :
    (cur.readWhile p).1 = cur.rest.takeWhile p := by
  rw [readWhile_eq]

theorem readWhile_rest (p : Char → Bool) (cur : Cursor) :
    (cur.readWhile p).2.rest = cur.rest.dropWhile p := by
  rw [readWhile_eq]

end Cursor

end Treewalk
