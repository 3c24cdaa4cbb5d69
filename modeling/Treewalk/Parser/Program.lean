import Treewalk.Parser.Cursor
import Treewalk.Parser.Stmt

/-!
# Parsing programs

A program is a list of declarations up to the first token that marks the end of the input.
-/

namespace Treewalk

/-- The statements of a program and the errors in it, in the order in which they were found. The
abandoned declarations are those that left no statement. -/
structure Program where
  statements : List Stmt
  errors : List SyntaxError
  abandoned : List Unexpected

namespace Parser

/-- Declarations up to the end of the input, if fewer than `bound` tokens are left. -/
def program {σ ε : Type} [Reader σ ε] (bound : Nat) : Parser σ ε (List Stmt) := do
  let found ← many next bound
  pure (found.filterMap id)
where
  next : Parser σ ε (Option (Option Stmt)) := do
    if ← atEnd then pure none else some <$> declaration bound

/-- The program that a reply is about. -/
def Reply.program {σ ε : Type} (reply : Reply σ ε (List Stmt)) : Program :=
  { statements := reply.result.toOption.getD []
    errors := reply.notes.errors
    abandoned := reply.notes.abandoned }

end Parser

/-- Parses a whole program. The bound is above the number of tokens, so it is not used up. -/
def parse (tokens : List Token) : Program :=
  (Parser.program (tokens.length + 1) (Parser.Cursor.start tokens)).program

end Treewalk
