import Treewalk.Tree.Stmt

/-!
# Values

What expressions evaluate to. A function remembers the scope in which it was declared.
-/

namespace Treewalk

/-- The number of a scope. -/
abbrev ScopeId := Nat

/-- A function that the host provides. These are the functions of the prelude. A host could provide
functions of its own, which may do anything to the machine; nothing is said about these. -/
inductive Native where
  | clock
  | write
  | writeLine
deriving DecidableEq

namespace Native

def all : List Native := [clock, write, writeLine]

def name : Native → String
  | clock => "clock"
  | write => "write"
  | writeLine => "writeLine"

def arity : Native → Nat
  | clock => 0
  | write => 1
  | writeLine => 1

end Native

/-- A function that a program declares, with the scope in which the declaration was executed. -/
structure Function where
  name : Token
  params : List Token
  body : List Stmt
  closure : ScopeId

/-- What can be called. -/
inductive Callable where
  | native (f : Native)
  | function (f : Function)

namespace Callable

def arity : Callable → Nat
  | native f => f.arity
  | function f => f.params.length

def text : Callable → String
  | native f => "<native fn " ++ f.name ++ ">"
  | function f => "<fn " ++ f.name.lexeme ++ ">"

/-- The callable as it is shown to someone who looks for faults. -/
def debugText : Callable → String
  | native f => s!"Native(NativeFn({f.name}/{f.arity}))"
  | function f => s!"Function(Function({f.name.lexeme}))"

/-- A scope declares a name only once, so the name and the scope of its declaration tell a function
from every other function. To compare the declarations instead of their names would come to the
same, as `same_iff_declaration_and_closure` says. -/
def same : Callable → Callable → Bool
  | native f, native g => f = g
  | function f, function g => f.closure = g.closure && f.name.lexeme == g.name.lexeme
  | _, _ => false

end Callable

/-- A value. -/
inductive Value where
  | null
  | bool (b : Bool)
  | number (x : Float)
  | string (s : String)
  | callable (c : Callable)

namespace Value

/-- The value that a literal denotes. -/
def ofLiteral : Literal → Value
  | .null => null
  | .bool b => bool b
  | .number x => number x
  | .string s => string s

/-- Only `null` and `false` do not hold. -/
def truthy : Value → Bool
  | null => false
  | bool b => b
  | _ => true

def number? : Value → Option Float
  | number x => some x
  | _ => none

def callable? : Value → Option Callable
  | callable c => some c
  | _ => none

/-- The value as it is written out. -/
def text : Value → String
  | null => "null"
  | bool b => if b then "true" else "false"
  | number x => Number.valueText x
  | string s => s
  | callable c => c.text

/-- Whether two values are the same to a program. Values of different types never are, and numbers
compare as numbers do: no number is equal to what is not a number. -/
def same : Value → Value → Bool
  | null, null => true
  | bool a, bool b => a == b
  | number x, number y => x == y
  | string s, string t => s == t
  | callable c, callable d => c.same d
  | _, _ => false

end Value

/-- A value that the host can provide. -/
inductive HostValue where
  | literal (value : Literal)
  | native (f : Native)

def HostValue.value : HostValue → Value
  | literal value => .ofLiteral value
  | native f => .callable (.native f)

end Treewalk
