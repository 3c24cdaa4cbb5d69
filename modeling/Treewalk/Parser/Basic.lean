import Treewalk.Error

/-!
# Parsers

A parser reads tokens one after the other. It ends with a result or gives up, and notes on the way
the errors that do not stop it. What it reads from is up to a `Reader`: the parsers of this library
are written once, for every reader.

Parsers of nested phrases and of lists read again and again and take a bound on the number of
rounds. A bound that is used up is no matter of the grammar, so it is for the reader to say how a
parser ends then: with an outcome of its own, or with a default.
-/

namespace Treewalk

namespace Parser

/-- What a parser notes besides its result: all errors, and again those at which a declaration was
abandoned, both in the order in which they were found. -/
structure Notes where
  errors : List SyntaxError
  abandoned : List Unexpected

namespace Notes

def none : Notes := ⟨[], []⟩

def append (a b : Notes) : Notes :=
  ⟨a.errors ++ b.errors, a.abandoned ++ b.abandoned⟩

instance : Append Notes := ⟨append⟩

end Notes

/-- How a parser ends: with a result or a reason to give up, in a state, and with its notes. -/
structure Reply (σ ε α : Type) where
  result : Except ε α
  state : σ
  notes : Notes

/-- States `σ` from which tokens are read, and the reasons `ε` to give up.

* `current` is the next token, which stays unread, and `atEnd` says whether no token is left;
* `check` says whether the next token is of a kind, and `take?` reads it if it is of one of several;
* `synchronize` goes on to the next boundary between statements, past at least one token;
* `inFunction` says whether the tokens are part of the body of a function, and `within` sets that;
* `refusal` gives up at an unexpected token, and `refused?` finds that token again;
* `boundReached` gives up because a bound is used up, unless the reader goes on with a default. -/
class Reader (σ : Type) (ε : outParam Type) where
  current : σ → Token
  atEnd : σ → Bool
  check : TokenKind → σ → Bool
  take? : List TokenKind → σ → Option (Token × σ)
  synchronize : σ → σ
  inFunction : σ → Bool
  within : σ → Bool → σ
  refusal : Unexpected → ε
  refused? : ε → Option Unexpected
  boundReached : Option ε

end Parser

/-- A parser for values of type `α`, which reads from a state `σ` and gives up for reasons `ε`. -/
def Parser (σ ε α : Type) : Type :=
  σ → Parser.Reply σ ε α

namespace Parser

variable {σ ε α β : Type}

@[inline] protected def pure (a : α) : Parser σ ε α := fun s =>
  ⟨.ok a, s, .none⟩

@[inline] protected def bind (p : Parser σ ε α) (f : α → Parser σ ε β) : Parser σ ε β := fun s =>
  match p s with
  | ⟨.ok a, s, notes⟩ =>
    let reply := f a s
    ⟨reply.result, reply.state, notes ++ reply.notes⟩
  | ⟨.error e, s, notes⟩ => ⟨.error e, s, notes⟩

instance : Monad (Parser σ ε) where
  pure := Parser.pure
  bind := Parser.bind

variable [Reader σ ε]

/-! ## Single tokens -/

/-- The next token, which stays unread. -/
def peek : Parser σ ε Token := fun s =>
  ⟨.ok (Reader.current s), s, .none⟩

/-- Whether the next token is of the given kind. -/
def check (kind : TokenKind) : Parser σ ε Bool := fun s =>
  ⟨.ok (Reader.check kind s), s, .none⟩

/-- Whether no token is left. -/
def atEnd : Parser σ ε Bool := fun s =>
  ⟨.ok (Reader.atEnd s), s, .none⟩

/-- Reads the next token if it is of one of the given kinds. -/
def accept (kinds : List TokenKind) : Parser σ ε (Option Token) := fun s =>
  match Reader.take? kinds s with
  | some (t, s) => ⟨.ok (some t), s, .none⟩
  | none => ⟨.ok none, s, .none⟩

/-- Gives up at the next token, which the grammar does not want here. -/
def unexpected (message : String) : Parser σ ε α := fun s =>
  ⟨.error (Reader.refusal σ ⟨Reader.current s, message⟩), s, .none⟩

/-- Reads a token of the given kind. -/
def expect (kind : TokenKind) (message : String) : Parser σ ε Token := do
  match ← accept [kind] with
  | some t => pure t
  | none => unexpected message

/-- Notes an error and goes on. -/
def report (e : SyntaxError) : Parser σ ε Unit := fun s =>
  ⟨.ok (), s, ⟨[e], []⟩⟩

/-! ## Functions -/

/-- Whether the tokens are part of the body of a function. -/
def inFunction : Parser σ ε Bool := fun s =>
  ⟨.ok (Reader.inFunction s), s, .none⟩

/-- Reads the body of a function. However that ends, the tokens behind it are part of what the
tokens before it were part of. -/
def withinFunction (p : Parser σ ε α) : Parser σ ε α := fun s =>
  let reply := p (Reader.within s true)
  { reply with state := Reader.within reply.state (Reader.inFunction s) }

/-! ## Bounds -/

/-- The bound of a parser is used up. A reader without an outcome for that goes on with `default`.
-/
def exhausted (default : Parser σ ε α) : Parser σ ε α :=
  match Reader.boundReached σ with
  | none => default
  | some e => fun s => ⟨.error e, s, .none⟩

/-! ## Lists -/

/-- Reads again and again until `p` finds nothing more, in at most `bound` rounds. -/
def many (p : Parser σ ε (Option α)) : (bound : Nat) → Parser σ ε (List α)
  | 0 => exhausted (pure [])
  | bound + 1 => do
    match ← p with
    | none => pure []
    | some a => do
      let rest ← many p bound
      pure (a :: rest)

/-- Reads items with commas between them, in at most `bound` rounds. An item knows the items before
it. -/
def commaList (item : List α → Parser σ ε α) :
    (bound : Nat) → List α → Parser σ ε (List α)
  | 0, before => exhausted do
    let a ← item before
    pure (before ++ [a])
  | bound + 1, before => do
    let a ← item before
    match ← accept [.comma] with
    | none => pure (before ++ [a])
    | some _ => commaList item bound (before ++ [a])

/-- Reads items with commas between them up to a closing parenthesis, which stays unread. -/
def items (bound : Nat) (item : List α → Parser σ ε α) : Parser σ ε (List α) := do
  if ← check .rightParen then pure [] else commaList item bound []

/-! ## Recovery -/

/-- Turns the end at an unexpected token into an error that is noted. What has been read is dropped,
and reading goes on at the next boundary between statements. -/
def recovering (p : Parser σ ε α) : Parser σ ε (Option α) := fun s =>
  match p s with
  | ⟨.ok a, s, notes⟩ => ⟨.ok (some a), s, notes⟩
  | ⟨.error e, s, notes⟩ =>
    match Reader.refused? σ e with
    | some u => ⟨.ok none, Reader.synchronize s, notes ++ ⟨[.unexpectedToken u], [u]⟩⟩
    | none => ⟨.error e, s, notes⟩

end Parser

end Treewalk
