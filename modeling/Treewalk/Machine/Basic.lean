import Treewalk.Log
import Treewalk.Store
import Treewalk.Write

/-!
# Machines

A machine is the state in which programs run: the scopes, the scope that is current, a clock, and
what has been written and logged. A run starts in a machine and ends with a result, with an error,
or out of fuel; a result or an error leaves a machine.
-/

namespace Treewalk

/-- A clock, as the readings that it gives one after the other and the number of readings taken. -/
structure Clock where
  readings : Nat → Float
  taken : Nat

/-- Takes a reading. -/
def Clock.read (c : Clock) : Float × Clock :=
  (c.readings c.taken, { c with taken := c.taken + 1 })

/-- A clock that gives a number of milliseconds first and one more with every reading. -/
def Clock.startingAt (milliseconds : Nat) : Clock :=
  ⟨fun n => Float.ofNat (milliseconds + n), 0⟩

/-- The state in which programs run. -/
structure Machine where
  store : Store
  scope : ScopeId
  clock : Clock
  written : Array Write
  log : Array LogEntry

namespace Machine

/-- The scope that lies in no other one. It is the first scope of a machine. -/
def globals : ScopeId := 0

def note (m : Machine) (e : LogEntry) : Machine :=
  { m with log := m.log.push e }

def write (m : Machine) (w : Write) : Machine :=
  { m with written := m.written.push w }

/-- Binds the natives in the global scope. -/
def provideNatives (m : Machine) : Machine :=
  { m with
    store := Native.all.foldl
      (fun st f => st.provide globals f.name (.callable (.native f))) m.store }

/-- A machine that has run nothing. -/
def initial (clock : Clock) : Machine :=
  provideNatives
    { store := (Store.empty.openScope none).2
      scope := globals
      clock
      written := #[]
      log := #[] }

/-- Forgets all that was declared globally, except the natives. -/
def reset (m : Machine) : Machine :=
  let m := m.note .resetting
  { provideNatives { m with store := m.store.clear globals } with scope := globals }

/-- The number of names bound in the global scope. -/
def globalCount (m : Machine) : Nat :=
  m.store.size globals

end Machine

/-- How a run ends. -/
inductive Outcome (α : Type) where
  | ok (a : α) (m : Machine)
  | failed (e : RuntimeError) (m : Machine)
  | outOfFuel

/-- A run that yields a value of type `α`. -/
def Run (α : Type) : Type :=
  Machine → Outcome α

namespace Run

@[inline] protected def pure {α : Type} (a : α) : Run α := fun m =>
  .ok a m

@[inline] protected def bind {α β : Type} (r : Run α) (f : α → Run β) : Run β := fun m =>
  match r m with
  | .ok a m => f a m
  | .failed e m => .failed e m
  | .outOfFuel => .outOfFuel

instance : Monad Run where
  pure := Run.pure
  bind := Run.bind

/-- Ends with an error. -/
def fail {α : Type} (e : RuntimeError) : Run α := fun m =>
  .failed e m

/-- Ends because it has gone on for too long. -/
def exhausted {α : Type} : Run α := fun _ =>
  .outOfFuel

/-- The result, or the error, of something that leaves the machine as it is. -/
def ofExcept {α : Type} : Except RuntimeError α → Run α
  | .ok a => pure a
  | .error e => fail e

def note (e : LogEntry) : Run Unit := fun m =>
  .ok () (m.note e)

def write (w : Write) : Run Unit := fun m =>
  .ok () (m.write w)

/-- Takes a reading of the clock. -/
def readClock : Run Float := fun m =>
  let (reading, clock) := m.clock.read
  .ok reading { m with clock }

/-! ## Scopes -/

/-- The scope that is current. -/
def currentScope : Run ScopeId := fun m =>
  .ok m.scope m

/-- Opens a scope inside another one. The current scope stays what it is. -/
def openScope (enclosing : ScopeId) : Run ScopeId := fun m =>
  let (id, store) := m.store.openScope (some enclosing)
  .ok id { m with store }

/-- Runs with another current scope. However that ends, the scope that was current before is current
again. -/
def within {α : Type} (scope : ScopeId) (r : Run α) : Run α := fun m =>
  match r { m with scope } with
  | .ok a after => .ok a { after with scope := m.scope }
  | .failed e after => .failed e { after with scope := m.scope }
  | .outOfFuel => .outOfFuel

/-- What a name means in the current scope. -/
def get (name : Token) : Run Value := fun m =>
  match m.store.get m.scope name with
  | .ok value => .ok value m
  | .error e => .failed e m

/-- Declares a name in a scope. -/
def define (scope : ScopeId) (name : Token) (value : Value) : Run Unit := fun m =>
  match m.store.checkFree scope name with
  | .ok () =>
    .ok () ({ m with store := m.store.insert scope name.lexeme value }.note
      (.defined name.lexeme value))
  | .error e => .failed e m

/-- Gives a name another value in the nearest scope around the current one that binds it. -/
def assign (name : Token) (value : Value) : Run Unit := fun m =>
  match m.store.binder m.scope name with
  | .ok binder => .ok () { m with store := m.store.replace binder name.lexeme value }
  | .error e => .failed e m

end Run

end Treewalk
