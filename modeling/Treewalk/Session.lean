import Treewalk.Machine.Unit

/-!
# Sessions

A session is a sequence of steps on one machine. Besides running units of source text, the host can
interpret statements of its own making and look at the global scope and change it.
-/

namespace Treewalk.Session

/-- A step of a session.

* `run` runs a unit of source text;
* `force` runs the statements of a unit even if there are errors in it;
* `interpret` runs statements;
* `reset` forgets all that was declared; `clear` forgets the natives too;
* `lookup`, `define`, `assign` and `provide` read and change the global scope;
* `call` calls what a global name is bound to, with any number of arguments;
* `equal` compares what two global names are bound to. -/
inductive Step where
  | run (source : String)
  | force (source : String)
  | interpret (statements : List Stmt)
  | reset
  | clear
  | lookup (name : String)
  | define (name : Token) (value : HostValue)
  | assign (name : Token) (value : HostValue)
  | provide (name : String) (value : HostValue)
  | call (name : String) (args : List HostValue)
  | equal (name other : String)

/-- What a step answers. -/
inductive Answer where
  | done
  | report (r : Report)
  | forced (errors : Nat) (failure : Option RuntimeError)
  | failed (e : RuntimeError)
  | value (v : Option Value)
  | equal (same : Bool)

/-- A machine in which nothing has been written or logged yet. -/
def fresh (m : Machine) : Machine :=
  { m with written := #[], log := #[] }

/-- Changes the scopes of a machine, unless that fails. -/
def update (m : Machine) : Except RuntimeError Store → Answer × Machine
  | .ok store => (.done, { m with store })
  | .error e => (.failed e, m)

/-- Whether two names mean the same, or both nothing. -/
def sameMeaning : Option Value → Option Value → Bool
  | some v, some w => v.same w
  | none, none => true
  | _, _ => false

/-- Takes a step. There is no answer if the fuel does not suffice. -/
def Step.perform (fuel : Nat) (m : Machine) : Step → Option (Answer × Machine)
  | run source => (m.run fuel source).map fun (r, m) => (.report r, m)
  | force source =>
    let (scan, m) := m.scan source
    let (program, m) := m.parse scan.tokens
    let errors := scan.errors.length + program.errors.length
    match m.interpret fuel program.statements with
    | .ok () m => some (.forced errors none, m)
    | .failed e m => some (.forced errors (some e), m)
    | .outOfFuel => none
  | interpret statements =>
    match m.interpret fuel statements with
    | .ok () m => some (.done, m)
    | .failed e m => some (.failed e, m)
    | .outOfFuel => none
  | reset => some (.done, m.reset)
  | clear => some (.done, { m with store := m.store.clear Machine.globals })
  | lookup name => some (.value (m.store.lookup? Machine.globals name), m)
  | define name value =>
    match Run.define Machine.globals name value.value m with
    | .ok () m => some (.done, m)
    | .failed e m => some (.failed e, m)
    | .outOfFuel => none
  | assign name value => some (update m (m.store.assign Machine.globals name value.value))
  | provide name value =>
    some (.done, { m with store := m.store.provide Machine.globals name value.value })
  | call name args =>
    match (m.store.lookup? Machine.globals name).bind Value.callable? with
    | none => some (.value none, m)
    | some c =>
      match Treewalk.call fuel c (args.map HostValue.value) m with
      | .ok v m => some (.value (some v), m)
      | .failed e m => some (.failed e, m)
      | .outOfFuel => none
  | equal name other =>
    some (.equal (sameMeaning (m.store.lookup? Machine.globals name)
      (m.store.lookup? Machine.globals other)), m)

/-- Takes the steps one after the other. Each answer comes with the machine behind its step, which
holds what the step wrote and logged. -/
def perform (fuel : Nat) (m : Machine) : List Step → Option (List (Answer × Machine))
  | [] => some []
  | step :: steps => do
    let (answer, m) ← step.perform fuel (fresh m)
    let rest ← perform fuel m steps
    pure ((answer, m) :: rest)

end Treewalk.Session
