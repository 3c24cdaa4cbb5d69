import Treewalk.Number.Shortest
import Treewalk.Text.Quoted
import Treewalk.Token.Kind

/-!
# Tokens

A token is a piece of source text together with what it is to the grammar, the value it denotes
if it is a number or a string, and the line on which it starts.
-/

namespace Treewalk

/-- The value that a literal token or expression denotes. -/
inductive Literal where
  | null
  | bool (b : Bool)
  | number (x : Float)
  | string (s : String)
deriving DecidableEq

/-- The literal as it is shown inside the text of an expression: strings are quoted. -/
def Literal.text : Literal → String
  | null => "null"
  | bool b => if b then "true" else "false"
  | number x => Number.text x
  | string s => Text.quote s

/-- A token. The lexeme is the piece of source text as it was written. -/
structure Token where
  kind : TokenKind
  lexeme : String
  literal : Option Literal
  line : Nat
deriving DecidableEq

namespace Token

/-- The mark of the end of the input on a given line. -/
def endOfInput (line : Nat) : Token := ⟨.eof, "", none, line⟩

/-- How messages name the token. -/
def text (t : Token) : String :=
  if t.kind = .eof then TokenKind.eof.text else t.lexeme

end Token

end Treewalk
