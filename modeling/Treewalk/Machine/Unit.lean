import Treewalk.Machine.Exec
import Treewalk.Parser.Program
import Treewalk.Report
import Treewalk.Token.Scan

/-!
# Units of source text

A unit is a source text that a machine runs as a whole. It runs only if nothing is wrong with its
spelling and its syntax. The first runtime error ends it; what was declared before stays declared.
-/

namespace Treewalk.Machine

/-- Executes statements in the global scope. A return among them ends them. -/
def interpret (fuel : Nat) (statements : List Stmt) (m : Machine) : Outcome Unit :=
  match executeAll (call fuel) fuel statements (m.note (.interpreting statements.length)) with
  | .ok _ m => .ok () m
  | .failed e m => .failed e { m.note (.failed e) with scope := globals }
  | .outOfFuel => .outOfFuel

/-- Scans a source text. -/
def scan (source : String) (m : Machine) : Scan × Machine :=
  let scan := Treewalk.scan source
  (scan, m.note (.scanned scan.tokens.length scan.errors.length))

/-- Parses tokens. -/
def parse (tokens : List Token) (m : Machine) : Program × Machine :=
  let program := Treewalk.parse tokens
  (program, program.abandoned.foldl (fun m u => m.note (.abandoned u)) m)

/-- Runs a unit. There is no report if the fuel does not suffice. -/
def run (fuel : Nat) (source : String) (m : Machine) : Option (Report × Machine) :=
  let (scan, m) := m.scan source
  let m := scan.tokens.foldl (fun m t => m.note (.token t)) m
  let (program, m) := m.parse scan.tokens
  let diagnostics :=
    scan.errors.map LexicalError.diagnostic ++ program.errors.map SyntaxError.diagnostic
  if diagnostics.isEmpty then
    match m.interpret fuel program.statements with
    | .ok () m => some (⟨[]⟩, m)
    | .failed e m => some (⟨[e.diagnostic]⟩, m)
    | .outOfFuel => none
  else
    some (⟨diagnostics⟩, m.note (.notRunning diagnostics.length))

end Treewalk.Machine
