import Treewalk.Error
import Treewalk.Value

/-!
# Scopes

A store holds scopes, numbered in the order in which they were opened. A scope binds names to values
and may lie inside an older scope. A name means what it is bound to in the nearest scope that binds
it: the scope itself, then the one it lies in, and so on.
-/

namespace Treewalk

/-- The bindings of a scope, and the scope in which it lies. Names are bound once. -/
structure Scope where
  bindings : List (String × Value)
  enclosing : Option ScopeId

namespace Scope

def get? (s : Scope) (name : String) : Option Value :=
  s.bindings.lookup name

def binds (s : Scope) (name : String) : Bool :=
  (s.get? name).isSome

/-- Binds a name that is not bound. -/
def insert (s : Scope) (name : String) (value : Value) : Scope :=
  { s with bindings := (name, value) :: s.bindings }

/-- Gives a bound name another value. -/
def replace (s : Scope) (name : String) (value : Value) : Scope :=
  { s with bindings := s.bindings.map fun b => if b.1 == name then (b.1, value) else b }

/-- Binds a name, whether it is bound or not. -/
def set (s : Scope) (name : String) (value : Value) : Scope :=
  if s.binds name then s.replace name value else s.insert name value

def clear (s : Scope) : Scope :=
  { s with bindings := [] }

/-- The number of names bound. -/
def size (s : Scope) : Nat := s.bindings.length

end Scope

/-- The scopes opened so far. -/
structure Store where
  scopes : Array Scope

namespace Store

def empty : Store := ⟨#[]⟩

def scope? (st : Store) (id : ScopeId) : Option Scope := st.scopes[id]?

/-- Opens a scope. -/
def openScope (st : Store) (enclosing : Option ScopeId) : ScopeId × Store :=
  (st.scopes.size, ⟨st.scopes.push ⟨[], enclosing⟩⟩)

/-- Changes the bindings of one scope. -/
def modify (st : Store) (id : ScopeId) (f : Scope → Scope) : Store :=
  ⟨st.scopes.modify id f⟩

/-- Whether a scope itself binds a name. -/
def binds (st : Store) (id : ScopeId) (name : String) : Bool :=
  (st.scope? id).any fun s => s.binds name

/-- The number of names that a scope itself binds. -/
def size (st : Store) (id : ScopeId) : Nat :=
  (st.scope? id).elim 0 Scope.size

/-- What is found in the nearest scope in which something is found: in the scope itself, or else in
the scopes around it, from the inside out. A scope lies in an older one. -/
def nearest? {α : Type} (st : Store) (find : ScopeId → Scope → Option α) (id : ScopeId) :
    Option α :=
  match st.scope? id with
  | none => none
  | some s =>
    match find id s, s.enclosing with
    | some a, _ => some a
    | none, none => none
    | none, some outer => if outer < id then st.nearest? find outer else none
termination_by id

/-- What a name means in a scope. -/
def lookup? (st : Store) (id : ScopeId) (name : String) : Option Value :=
  st.nearest? (fun _ s => s.get? name) id

/-- What a name means in a scope, which must know it. -/
def get (st : Store) (id : ScopeId) (name : Token) : Except RuntimeError Value :=
  match st.lookup? id name.lexeme with
  | some value => .ok value
  | none => .error (.undefinedVariable name)

/-- The nearest scope that binds a name. -/
def binder? (st : Store) (id : ScopeId) (name : String) : Option ScopeId :=
  st.nearest? (fun id s => if s.binds name then some id else none) id

/-- The nearest scope that binds a name, which there must be. -/
def binder (st : Store) (id : ScopeId) (name : Token) : Except RuntimeError ScopeId :=
  match st.binder? id name.lexeme with
  | some binder => .ok binder
  | none => .error (.undefinedVariable name)

/-- Fails if a scope itself binds a name. -/
def checkFree (st : Store) (id : ScopeId) (name : Token) : Except RuntimeError Unit :=
  if st.binds id name.lexeme then .error (.alreadyDefined name) else .ok ()

/-- Binds a name in a scope that does not bind it. -/
def insert (st : Store) (id : ScopeId) (name : String) (value : Value) : Store :=
  st.modify id fun s => s.insert name value

/-- Gives a name another value in a scope that binds it. -/
def replace (st : Store) (id : ScopeId) (name : String) (value : Value) : Store :=
  st.modify id fun s => s.replace name value

/-- Declares a name in a scope, which must not bind it. Scopes around it may. -/
def define (st : Store) (id : ScopeId) (name : Token) (value : Value) : Except RuntimeError Store :=
  (st.checkFree id name).map fun () => st.insert id name.lexeme value

/-- Gives a name another value in the nearest scope that binds it. No name is declared by this. -/
def assign (st : Store) (id : ScopeId) (name : Token) (value : Value) : Except RuntimeError Store :=
  (st.binder id name).map fun binder => st.replace binder name.lexeme value

/-- Binds a name in a scope for the host, whether the scope binds it or not. -/
def provide (st : Store) (id : ScopeId) (name : String) (value : Value) : Store :=
  st.modify id fun s => s.set name value

/-- Removes all bindings of a scope. -/
def clear (st : Store) (id : ScopeId) : Store :=
  st.modify id Scope.clear

end Store

end Treewalk
