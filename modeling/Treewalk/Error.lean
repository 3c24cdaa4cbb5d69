import Treewalk.Source.Position
import Treewalk.Token.Basic

/-!
# What can go wrong

The three kinds of errors: source text that no token starts with, tokens that no statement is made
of, and operations that have no result. Each cause has one wording.
-/

namespace Treewalk

/-- An error in the spelling of the source text, at a position.

* `unexpectedCharacter`: no token starts with this character;
* `unterminatedString`: the string that starts here has no closing quote. -/
inductive LexicalError where
  | unexpectedCharacter (c : Char) (position : Position)
  | unterminatedString (position : Position)
deriving DecidableEq

namespace LexicalError

def position : LexicalError → Position
  | unexpectedCharacter _ p => p
  | unterminatedString p => p

def message : LexicalError → String
  | unexpectedCharacter c _ => s!"Unexpected character '{c}'."
  | unterminatedString _ => "Unterminated string."

end LexicalError

/-- A token at which the grammar wants something else, with the wording of what it wants. -/
structure Unexpected where
  found : Token
  message : String
deriving DecidableEq

/-- An error in the order of the tokens, at a token.

* `unexpectedToken`: the statement was given up at this token;
* `invalidAssignmentTarget`: what stands before this `=` cannot be assigned to;
* `tooManyArguments`, `tooManyParameters`: this token starts one too many;
* `duplicateParameter`: an earlier parameter of the function has this name;
* `returnOutsideFunction`: this `return` stands in no function. -/
inductive SyntaxError where
  | unexpectedToken (u : Unexpected)
  | invalidAssignmentTarget (equals : Token)
  | tooManyArguments (t : Token)
  | tooManyParameters (t : Token)
  | duplicateParameter (name : Token)
  | returnOutsideFunction (keyword : Token)
deriving DecidableEq

namespace SyntaxError

def token : SyntaxError → Token
  | unexpectedToken u => u.found
  | invalidAssignmentTarget t => t
  | tooManyArguments t => t
  | tooManyParameters t => t
  | duplicateParameter t => t
  | returnOutsideFunction t => t

/-- Whether the error lies at the end of the input. -/
def atEnd (e : SyntaxError) : Bool := e.token.kind = .eof

def message : SyntaxError → String
  | unexpectedToken u => u.message
  | invalidAssignmentTarget _ => "Invalid assignment target."
  | tooManyArguments _ => "Can't have more than 255 arguments."
  | tooManyParameters _ => "Can't have more than 255 parameters."
  | duplicateParameter t => s!"Already a parameter named '{t.lexeme}' in this function."
  | returnOutsideFunction _ => "Can't return from top-level code."

end SyntaxError

/-- An operation without a result, at the token that asked for it. -/
inductive RuntimeError where
  | undefinedVariable (name : Token)
  | alreadyDefined (name : Token)
  | unknownOperator (op : Token)
  | operandMustBeNumber (op : Token)
  | operandsMustBeNumbers (op : Token)
  | invalidAddOperands (op : Token)
  | notCallable (paren : Token)
  | arityMismatch (paren : Token) (expected got : Nat)
deriving DecidableEq

namespace RuntimeError

def token : RuntimeError → Token
  | undefinedVariable t => t
  | alreadyDefined t => t
  | unknownOperator t => t
  | operandMustBeNumber t => t
  | operandsMustBeNumbers t => t
  | invalidAddOperands t => t
  | notCallable t => t
  | arityMismatch t _ _ => t

def message : RuntimeError → String
  | undefinedVariable t => s!"Undefined variable '{t.lexeme}'."
  | alreadyDefined t => s!"Variable '{t.lexeme}' is already defined in this scope."
  | unknownOperator t => s!"Unknown operator '{t.lexeme}'."
  | operandMustBeNumber _ => "Operand must be a number."
  | operandsMustBeNumbers _ => "Operands must be numbers."
  | invalidAddOperands t => s!"Operands of '{t.lexeme}' must be two numbers or two strings."
  | notCallable _ => "Can only call functions and natives."
  | arityMismatch _ expected got => s!"Expected {expected} arguments but got {got}."

end RuntimeError

end Treewalk
