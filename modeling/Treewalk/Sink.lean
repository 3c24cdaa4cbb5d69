import Treewalk.Log
import Treewalk.Write

/-!
# Sinks

A sink passes writes on to a writer, as bytes, and flushes it behind each of them. What the writer
does not take is lost: the program is not told, but the loss is logged.

Of the writer it is assumed that it takes bytes as long as it has room, and that flushing does not
fail.
-/

namespace Treewalk

/-- The texts that are passed on for a write, one after the other. -/
def Write.pieces : Write → List String
  | plain s => [s]
  | line s => [s, "\n"]

/-- The bytes of a write. -/
def Write.bytes (w : Write) : List UInt8 :=
  w.text.toUTF8.toList

/-- A writer: the room left in it, unlimited if none is given, the bytes it has taken, and how often
it was flushed. -/
structure Writer where
  room : Option Nat
  taken : List UInt8
  flushes : Nat

namespace Writer

/-- Whether there is room for so many bytes. -/
def fits (w : Writer) (n : Nat) : Bool :=
  w.room.all fun room => n ≤ room

/-- Takes bytes as far as there is room, and tells whether that was all of them. -/
def put (bytes : List UInt8) (w : Writer) : Bool × Writer :=
  if w.fits bytes.length then
    (true, { w with room := w.room.map (· - bytes.length), taken := w.taken ++ bytes })
  else
    (false, { w with room := some 0, taken := w.taken ++ bytes.take (w.room.getD 0) })

/-- Takes texts one after the other, up to the first one that is not taken in full. -/
def putAll : List String → Writer → Bool × Writer
  | [], w => (true, w)
  | text :: texts, w =>
    match w.put text.toUTF8.toList with
    | (true, w) => w.putAll texts
    | (false, w) => (false, w)

def flush (w : Writer) : Bool × Writer :=
  (true, { w with flushes := w.flushes + 1 })

end Writer

/-- A writer, and an entry for each write that it did not take in full. -/
structure Sink extends Writer where
  log : List LogEntry

namespace Sink

def empty (room : Option Nat) : Sink := ⟨⟨room, [], 0⟩, []⟩

/-- Passes a write on, and then flushes the writer. If one of these fails, that is logged, and
nothing else comes of it. -/
def write (s : Sink) (w : Write) : Sink :=
  let (done, writer) :=
    match s.toWriter.putAll w.pieces with
    | (true, writer) => writer.flush
    | (false, writer) => (false, writer)
  { writer with log := if done then s.log else s.log ++ [.writeFailed] }

def writeAll (s : Sink) (ws : List Write) : Sink :=
  ws.foldl write s

end Sink

end Treewalk
