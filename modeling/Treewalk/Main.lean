import Std.Time.DateTime.Timestamp
import Treewalk.CommandLine

/-!
# The program

Reads files and lines, and prints what comes of them.
-/

namespace Treewalk.CommandLine

/-- What is found under a name in the directory. -/
def readContent (name : String) : IO FileContent := do
  try
    return .bytes (← IO.FS.readBinFile name)
  catch
    | .noFileOrDirectory .. => return .missing
    | .inappropriateType .. => return .directory
    | e => throw e

/-- Prints to both streams. -/
def display (stdout stderr : String) : IO Unit := do
  (← IO.getStdout).putStr stdout
  (← IO.getStdout).flush
  (← IO.getStderr).putStr stderr

/-- Takes lines from the standard input until there are no more, or until one ends it. -/
partial def serveLines (m : Machine) : IO UInt32 := do
  let line ← (← IO.getStdin).getLine
  if line.isEmpty then return 0
  match takeLine ampleFuel m line.toList with
  | none => return 1
  | some .ended => return 0
  | some (.next m report) =>
    display (outputText m) (diagnosticsText report)
    serveLines m

end Treewalk.CommandLine

open Treewalk Treewalk.CommandLine in
def main (args : List String) : IO UInt32 := do
  let now ← Std.Time.Timestamp.now
  let clock := Clock.startingAt now.toMillisecondsSinceUnixEpoch.toInt.toNat
  let settings ← readContent ".env"
  match Command.ofArgs args with
  | .repl =>
    display (greeting settings) ""
    serveLines (.initial clock)
  | .file name =>
    let content ← readContent name
    finish (run ampleFuel clock args (fun n => if n == name then content else settings) "")
  | .unknown => finish (run ampleFuel clock args (fun _ => settings) "")
where
  finish : Option Transcript → IO UInt32
    | none => return 1
    | some t => do
      display t.stdout t.stderr
      return UInt32.ofNat t.code
