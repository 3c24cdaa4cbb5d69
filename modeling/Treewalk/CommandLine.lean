import Treewalk.Machine.Unit
import Treewalk.Text.Space

/-!
# The command line

The program runs a file as one unit, or reads lines and runs each as a unit of its own. What it
prints is computed here; reading files and lines and printing is left to the caller.
-/

namespace Treewalk.CommandLine

/-- More fuel than a program uses up in a lifetime. -/
def ampleFuel : Nat := Nat.pow 2 60

/-- What the arguments ask for: to read lines, to run a file, or neither. -/
inductive Command where
  | repl
  | file (name : String)
  | unknown

/-- The command that the arguments ask for. Arguments that are not needed are ignored. -/
def Command.ofArgs : List String → Command
  | "-i" :: _ => repl
  | "-f" :: name :: _ => file name
  | _ => unknown

/-- What is found under the name of a file. -/
inductive FileContent where
  | missing
  | directory
  | bytes (content : ByteArray)

/-- What the program prints, and the code with which it ends. -/
structure Transcript where
  code : Nat
  stdout : String
  stderr : String

namespace Transcript

/-- Prints something and goes on with the rest. -/
def after (stdout stderr : String) (rest : Transcript) : Transcript :=
  ⟨rest.code, stdout ++ rest.stdout, stderr ++ rest.stderr⟩

def success : Transcript := ⟨0, "", ""⟩

/-- Ends with an error, which is printed in a form for those who look for faults. -/
def failure (error : String) : Transcript :=
  ⟨1, "", "Error: " ++ error ++ "\n"⟩

end Transcript

def usage : String := "usage: tinyscript -i | -f <file>"

/-- What is printed first, given whether there is a file with settings. -/
def greeting (settings : FileContent) : String :=
  match settings with
  | .bytes _ => ""
  | _ => "dotenvy load with error path not found\n"

/-- What a machine has written. -/
def outputText (m : Machine) : String :=
  String.join (m.written.toList.map Write.text)

/-- The diagnostics of a report, one on a line. -/
def diagnosticsText (r : Report) : String :=
  String.join (r.diagnostics.map fun d => d.text ++ "\n")

/-! ## Files -/

/-- Runs the text of a file as one unit. -/
def runText (fuel : Nat) (m : Machine) (name text : String) : Option Transcript := do
  let (report, m) ← m.run fuel text
  let ending :=
    if report.ok then Transcript.success
    else .failure (Text.quote s!"{name} failed with {report.diagnostics.length} error(s)")
  pure (ending.after (outputText m) (diagnosticsText report))

/-- Runs a file as one unit. -/
def runFile (fuel : Nat) (m : Machine) (name : String) : FileContent → Option Transcript
  | .missing => some (.failure
      "Os \x7b code: 2, kind: NotFound, message: \"No such file or directory\" \x7d")
  | .directory => some (.failure
      "Os \x7b code: 21, kind: IsADirectory, message: \"Is a directory\" \x7d")
  | .bytes content =>
    match String.fromUTF8? content with
    | none => some (.failure
        "Error \x7b kind: InvalidData, message: \"stream did not contain valid UTF-8\" \x7d")
    | some text => runText fuel m name text

/-! ## Lines -/

/-- What a line asks for. White space at its ends does not count. -/
inductive Line where
  | quit
  | reset
  | unit (source : String)

def Line.ofText (text : List Char) : Line :=
  let source := String.ofList (Text.trim text)
  if source = ":quit" then quit else if source = ":reset" then reset else unit source

/-- What comes of a line: the end, or a machine that goes on, with a report if a unit was run. What
the machine has written is what the line wrote. -/
inductive Turn where
  | ended
  | next (m : Machine) (report : Report)

/-- Takes a line. There is no turn if the fuel does not suffice. -/
def takeLine (fuel : Nat) (m : Machine) (text : List Char) : Option Turn :=
  match Line.ofText text with
  | .quit => some .ended
  | .reset => some (.next { m.reset with written := #[] } ⟨[]⟩)
  | .unit source =>
    ({ m with written := #[] }.run fuel source).map fun (report, m) => .next m report

/-- The lines of a text. The last one need not be ended. -/
def lines (text : List Char) : List (List Char) :=
  go [] text
where
  go (line : List Char) : List Char → List (List Char)
    | [] => if line.isEmpty then [] else [line.reverse]
    | c :: rest => if c = '\n' then line.reverse :: go [] rest else go (c :: line) rest

/-- Takes lines until there are no more, or until one ends it. -/
def takeLines (fuel : Nat) (m : Machine) : List (List Char) → Option Transcript
  | [] => some .success
  | line :: rest => do
    match ← takeLine fuel m line with
    | .ended => pure .success
    | .next m report => do
      let ending ← takeLines fuel m rest
      pure (ending.after (outputText m) (diagnosticsText report))

/-! ## The whole program -/

/-- Runs the program with the given arguments, files and input. There is no transcript if the fuel
does not suffice. -/
def run (fuel : Nat) (clock : Clock) (args : List String) (files : String → FileContent)
    (stdin : String) : Option Transcript := do
  let m := Machine.initial clock
  let transcript ← match Command.ofArgs args with
    | .repl => takeLines fuel m (lines stdin.toList)
    | .file name => runFile fuel m name (files name)
    | .unknown => pure ((Transcript.failure (Text.quote usage)).after "" (usage ++ "\n"))
  pure (transcript.after (greeting (files ".env")) "")

end Treewalk.CommandLine
