import Treewalk.Parser.Basic

/-!
# Cursors

The reader with which programs are parsed: all tokens, and the index of the next one. Nothing is
said about the tokens. There may be no end of the input among them, or several, with other tokens
behind them; the cursor stops at the first one that it meets, and at the end of the tokens.
-/

namespace Treewalk.Parser

/-- An index into the tokens, and whether it is in the body of a function. -/
structure Cursor where
  tokens : Array Token
  index : Nat
  inFunction : Bool

namespace Cursor

/-- The cursor in front of all tokens. -/
def start (tokens : List Token) : Cursor :=
  ⟨tokens.toArray, 0, false⟩

/-- The token at an index. Where there is none, an end of the input on line zero is assumed. -/
def tokenAt (c : Cursor) (i : Nat) : Token :=
  c.tokens.getD i (.endOfInput 0)

/-- The next token. -/
def current (c : Cursor) : Token :=
  c.tokenAt c.index

/-- The token before the next one. -/
def previous (c : Cursor) : Token :=
  match c.index with
  | 0 => .endOfInput 0
  | i + 1 => c.tokenAt i

def atEnd (c : Cursor) : Bool :=
  c.current.kind = .eof

/-- Passes over the next token, but not over an end of the input. -/
def advance (c : Cursor) : Cursor :=
  if c.atEnd then c else { c with index := c.index + 1 }

/-- Whether the next token is of one of the given kinds. No kind makes an end of the input such a
token. -/
def check (kinds : List TokenKind) (c : Cursor) : Bool :=
  !c.atEnd && kinds.contains c.current.kind

/-- Reads the next token if it is of one of the given kinds. -/
def take? (kinds : List TokenKind) (c : Cursor) : Option (Token × Cursor) :=
  if c.check kinds then some (c.current, c.advance) else none

/-- The kinds of the tokens that start a statement wherever they stand. -/
def statementStarts : List TokenKind :=
  [.forWord, .whileWord, .ifWord, .returnWord]

theorem index_lt_of_atEnd {c : Cursor} (h : c.atEnd = false) : c.index < c.tokens.size := by
  by_cases hlt : c.index < c.tokens.size
  · exact hlt
  · simp [atEnd, current, tokenAt, Array.getD, hlt, Token.endOfInput] at h

/-- Goes on to the next boundary between statements: right behind a semicolon, or in front of a
token that starts a statement. -/
def boundary (c : Cursor) : Cursor :=
  if c.atEnd then c
  else if c.previous.kind = .semicolon then c
  else if c.check statementStarts then c
  else boundary c.advance
termination_by c.tokens.size - c.index
decreasing_by
  rename_i hend _ _
  have hlt := index_lt_of_atEnd (Bool.eq_false_iff.2 hend)
  rw [advance, if_neg hend]
  exact Nat.sub_succ_lt_self _ _ hlt

/-- Where reading goes on after a declaration was abandoned. -/
def synchronize (c : Cursor) : Cursor :=
  c.advance.boundary

end Cursor

/-- Why a parser gives up at a cursor: at an unexpected token, or because a bound is used up. -/
inductive Halt where
  | refused (u : Unexpected)
  | boundReached

instance : Reader Cursor Halt where
  current := Cursor.current
  atEnd := Cursor.atEnd
  check kind := Cursor.check [kind]
  take? := Cursor.take?
  synchronize := Cursor.synchronize
  inFunction := Cursor.inFunction
  within c fn := { c with inFunction := fn }
  refusal := .refused
  refused?
    | .refused u => some u
    | .boundReached => none
  boundReached := some .boundReached

end Treewalk.Parser
