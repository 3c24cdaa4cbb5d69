import Treewalk.Error

/-!
# Reports

A report is what the host learns about a unit of source text: the list of its diagnostics, empty if
all went well.
-/

namespace Treewalk

/-- The stage of reading and running a unit at which something went wrong. -/
inductive DiagnosticKind where
  | lexical
  | syntactic
  | runtime
deriving DecidableEq

def DiagnosticKind.text : DiagnosticKind → String
  | lexical => "LexicalError"
  | syntactic => "SyntaxError"
  | runtime => "RuntimeError"

/-- An error in the form in which the host sees it. Only errors in the spelling know their
column. -/
structure Diagnostic where
  kind : DiagnosticKind
  message : String
  line : Nat
  column : Option Nat
deriving DecidableEq

namespace Diagnostic

/-- The diagnostic on one line. -/
def text (d : Diagnostic) : String :=
  match d.column with
  | some column => s!"[line {d.line}, column {column}] {d.kind.text}: {d.message}"
  | none => s!"[line {d.line}] {d.kind.text}: {d.message}"

end Diagnostic

def LexicalError.diagnostic (e : LexicalError) : Diagnostic :=
  ⟨.lexical, e.message, e.position.line, some e.position.column⟩

/-- An error at the end of the input says so. -/
def SyntaxError.diagnostic (e : SyntaxError) : Diagnostic :=
  let message := if e.atEnd then e.message ++ " Found end of input." else e.message
  ⟨.syntactic, message, e.token.line, none⟩

def RuntimeError.diagnostic (e : RuntimeError) : Diagnostic :=
  ⟨.runtime, e.message, e.token.line, none⟩

/-- The diagnostics of a unit. -/
structure Report where
  diagnostics : List Diagnostic
deriving DecidableEq

namespace Report

/-- Whether nothing went wrong. -/
def ok (r : Report) : Bool := r.diagnostics.isEmpty

/-- Whether something of this kind went wrong. -/
def has (r : Report) (kind : DiagnosticKind) : Bool :=
  r.diagnostics.any fun d => d.kind = kind

end Report

end Treewalk
