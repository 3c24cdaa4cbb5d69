/-!
# Positions in source text

A position says where a character stands: its line and its column, both counted from one.
-/

namespace Treewalk

/-- A place in a source text. -/
structure Position where
  line : Nat
  column : Nat
deriving DecidableEq, Inhabited

namespace Position

/-- Where the first character of a text stands. -/
def start : Position := ⟨1, 1⟩

/-- Where the next character stands, if `c` stands here. -/
def step (p : Position) (c : Char) : Position :=
  if c = '\n' then ⟨p.line + 1, 1⟩ else ⟨p.line, p.column + 1⟩

/-- Where the next character stands, if `text` starts here. -/
def advance (p : Position) (text : List Char) : Position :=
  text.foldl step p

/-- The position as it is shown to people. -/
def text (p : Position) : String :=
  s!"[{p.line}:{p.column}]"

@[simp] theorem advance_nil (p : Position) : p.advance [] = p := rfl

@[simp] theorem advance_cons (p : Position) (c : Char) (cs : List Char) :
    p.advance (c :: cs) = (p.step c).advance cs := rfl

@[simp] theorem advance_append (p : Position) (a b : List Char) :
    p.advance (a ++ b) = (p.advance a).advance b := by
  simp [advance]

end Position

end Treewalk
