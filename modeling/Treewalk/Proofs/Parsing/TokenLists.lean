import Treewalk.Parser.Program

/-!
# Reading from lists of tokens

Another reader, with which parsers are reasoned about: the list of the tokens left. The end of the
input is not an element of the list but stands behind its last token, so that no parser can pass it,
and the number of tokens left is the length of the list. A bound that is used up has no outcome
here.

What parsers do at a cursor they do also at the list of the tokens that are left there: see
`Treewalk.Proofs.Parsing.Bounds`.
-/

namespace Treewalk

namespace Parser

/-- The tokens left, the token that stands for the end of the input, and whether the tokens are part
of the body of a function. -/
structure State where
  rest : List Token
  stop : Token
  stop_kind : stop.kind = .eof
  inFunction : Bool

/-- The next token. -/
def State.current (s : State) : Token :=
  s.rest.headD s.stop

/-- Reads the next token if it is of one of the given kinds. -/
def State.take? (kinds : List TokenKind) (s : State) : Option (Token × State) :=
  match s.rest with
  | t :: rest => if t.kind ∈ kinds then some (t, { s with rest }) else none
  | [] => none

/-- The same tokens, as part of the body of a function or not. -/
def State.within (s : State) (fn : Bool) : State :=
  { s with inFunction := fn }

/-- Whether a token of this kind starts a statement wherever it stands. -/
def startsStatement (kind : TokenKind) : Bool :=
  kind = .forWord || kind = .whileWord || kind = .ifWord || kind = .returnWord

/-- Finds the next boundary between statements behind the token `t`, which has been passed over:
right behind a semicolon, or in front of a token that starts a statement. -/
def boundary (t : Token) : List Token → List Token
  | [] => []
  | u :: rest =>
    if t.kind = .semicolon || startsStatement u.kind then u :: rest else boundary u rest

/-- What is left to read after a declaration was abandoned in front of these tokens. At least one of
them is passed over. -/
def synchronize : List Token → List Token
  | [] => []
  | t :: rest => boundary t rest

instance : Reader State Unexpected where
  current := State.current
  atEnd s := s.rest.isEmpty
  check kind s := s.rest.head?.any fun t => t.kind = kind
  take? := State.take?
  synchronize s := { s with rest := synchronize s.rest }
  inFunction := State.inFunction
  within := State.within
  refusal := id
  refused? := some
  boundReached := none

end Parser

/-- A parser that reads from a list of tokens. -/
abbrev ListParser : Type → Type :=
  Parser Parser.State Unexpected

namespace Parser

/-- How a parser ends that reads from a list of tokens. -/
abbrev ListReply : Type → Type :=
  Reply State Unexpected

/-! ## The basic parsers -/

section
variable {s : State} {t : Token} {rest : List Token} {kinds : List TokenKind}

@[simp] theorem State.reader_current (s : State) : Reader.current s = s.current := rfl

@[simp] theorem State.reader_atEnd (s : State) : Reader.atEnd s = s.rest.isEmpty := rfl

@[simp] theorem State.reader_check (s : State) (kind : TokenKind) :
    Reader.check kind s = s.rest.head?.any fun t => t.kind = kind := rfl

@[simp] theorem State.reader_inFunction (s : State) : Reader.inFunction s = s.inFunction := rfl

@[simp] theorem State.reader_within (s : State) (fn : Bool) :
    Reader.within s fn = s.within fn := rfl

@[simp] theorem State.reader_synchronize (s : State) :
    Reader.synchronize s = { s with rest := synchronize s.rest } := rfl

@[simp] theorem State.reader_refusal (u : Unexpected) : Reader.refusal State u = u := rfl

@[simp] theorem State.reader_refused? (u : Unexpected) : Reader.refused? State u = some u := rfl

/-- At the end of the input no token is taken, of whatever kinds it may be. -/
theorem accept_nil (hs : s.rest = []) (kinds : List TokenKind) :
    accept kinds s = ⟨.ok none, s, .none⟩ := by
  have htake : Reader.take? kinds s = none := by simp [Reader.take?, State.take?, hs]
  simp only [accept, htake]

/-- A token of one of the kinds is taken off the list, and nothing else changes. -/
theorem accept_of_mem (hs : s.rest = t :: rest) (hkind : t.kind ∈ kinds) :
    accept kinds s = ⟨.ok (some t), { s with rest }, .none⟩ := by
  have htake : Reader.take? kinds s = some (t, { s with rest }) := by
    simp [Reader.take?, State.take?, hs, hkind]
  simp only [accept, htake]

theorem accept_of_not_mem (hs : s.rest = t :: rest) (hkind : t.kind ∉ kinds) :
    accept kinds s = ⟨.ok none, s, .none⟩ := by
  have htake : Reader.take? kinds s = none := by simp [Reader.take?, State.take?, hs, hkind]
  simp only [accept, htake]

/-- Reading a token notes nothing. -/
@[simp] theorem accept_notes (kinds : List TokenKind) (s : State) :
    (accept kinds s).notes = .none := by
  cases hs : s.rest with
  | nil => rw [accept_nil hs]
  | cons t rest =>
    by_cases hkind : t.kind ∈ kinds
    · rw [accept_of_mem hs hkind]
    · rw [accept_of_not_mem hs hkind]

/-- The mark is set for the parser inside and put back to what it was, also if the parser gives up.
-/
theorem withinFunction_list {α : Type} (p : ListParser α) (s : State) :
    withinFunction p s = ⟨(p (s.within true)).result, (p (s.within true)).state.within s.inFunction,
      (p (s.within true)).notes⟩ := rfl

/-- A list of tokens has no outcome for a bound that is used up. -/
@[simp] theorem exhausted_list {α : Type} (p : ListParser α) : exhausted p = p := rfl

end

/-! ## The state of a program -/

/-- The state in front of the tokens of a program. Tokens behind an end of input do not count;
without one, an end of input on line zero is assumed. -/
def State.start (tokens : List Token) : State :=
  { rest := tokens.takeWhile fun t => t.kind ≠ .eof
    stop := (tokens.find? fun t => t.kind = .eof).getD (.endOfInput 0)
    stop_kind := by
      cases h : tokens.find? fun t => t.kind = .eof with
      | none => rfl
      | some t => simpa using List.find?_some h
    inFunction := false }

end Parser

end Treewalk
