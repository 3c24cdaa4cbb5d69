import Treewalk.Machine.Unit
import Treewalk.Sink

/-!
# Consoles

A console is a machine whose writes go into a sink. The host can write into the sink too.

A machine does not see the sink. So it keeps its writes in their order, and at every moment of a run
the sink is what these writes make of it.
-/

namespace Treewalk

/-- The sink, once all that the machine has written went into it. -/
def Sink.behind (s : Sink) (m : Machine) : Sink :=
  s.writeAll m.written.toList

/-- A machine and the sink that takes what it writes. -/
structure Console where
  machine : Machine
  sink : Sink

namespace Console

/-- A step on a console: a write of the host, or a unit of source text. -/
inductive Step where
  | write (w : Write)
  | run (source : String)

/-- Takes a step, which gives a report if it runs a unit. There is no answer if the fuel does not
suffice. -/
def Step.perform (fuel : Nat) (c : Console) : Step → Option (Option Report × Console)
  | write w => some (none, { c with sink := c.sink.write w })
  | run source => do
    let (report, machine) ← { c.machine with written := #[] }.run fuel source
    pure (some report, ⟨machine, c.sink.behind machine⟩)

end Console

end Treewalk
