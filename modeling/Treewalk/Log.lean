import Treewalk.Value
import Treewalk.Error

/-!
# The log

What a machine records about its own work, for those who look for faults. An entry holds what
happened; its wording is made when it is read.
-/

namespace Treewalk

/-- How much an entry of the log matters, from the least to the most. -/
inductive LogLevel where
  | trace
  | debug
  | error
deriving DecidableEq

namespace LogLevel

def name : LogLevel → String
  | trace => "TRACE"
  | debug => "DEBUG"
  | error => "ERROR"

def weight : LogLevel → Nat
  | trace => 0
  | debug => 1
  | error => 2

end LogLevel

/-- An entry of the log.

* `scanned`: a text was cut into so many tokens, with so many errors;
* `token`: one of the tokens of a unit;
* `abandoned`: a declaration was given up at a token;
* `notRunning`: a unit is not run because of so many diagnostics;
* `interpreting`: so many statements are going to be run;
* `defined`: a name was declared;
* `calling`: something is called with so many arguments;
* `failed`: a unit ended with a runtime error;
* `resetting`: the machine forgets all that was declared;
* `writeFailed`: the sink did not take all that was written. -/
inductive LogEntry where
  | scanned (tokens errors : Nat)
  | token (t : Token)
  | abandoned (u : Unexpected)
  | notRunning (diagnostics : Nat)
  | interpreting (statements : Nat)
  | defined (name : String) (value : Value)
  | calling (c : Callable) (args : Nat)
  | failed (e : RuntimeError)
  | resetting
  | writeFailed

namespace LogEntry

def level : LogEntry → LogLevel
  | scanned .. => .trace
  | token _ => .trace
  | abandoned _ => .debug
  | notRunning _ => .debug
  | interpreting _ => .debug
  | defined .. => .trace
  | calling .. => .trace
  | failed _ => .debug
  | resetting => .debug
  | writeFailed => .error

def message : LogEntry → String
  | scanned tokens errors => s!"scanned {tokens} tokens with {errors} errors"
  | token t => s!"{t.line} - {t.kind.name}: " ++ Text.quote t.lexeme
  | abandoned u => s!"line {u.found.line}: {u.message}, synchronizing"
  | notRunning diagnostics => s!"not running: {diagnostics} diagnostics before execution"
  | interpreting statements => s!"interpreting {statements} statements"
  | defined name value => s!"define `{name}` = {value.text}"
  | calling c args => s!"calling {c.text} with {args} arguments"
  | failed e => s!"runtime error at line {e.token.line}: {e.message}"
  | resetting => "resetting interpreter"
  | writeFailed => "failed to write output: sink full"

/-- Whether the entry matters at least as much as `level`. -/
def isAt (level : LogLevel) (e : LogEntry) : Bool :=
  level.weight ≤ e.level.weight

end LogEntry

end Treewalk
