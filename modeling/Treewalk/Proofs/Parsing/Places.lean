import Treewalk.Proofs.Parsing.Boundaries

/-!
# Where errors are found

A parser reads a list of tokens from some index on. Every error that it notes on the way is found at
one of the tokens that it has read or is in front of. Errors are noted in the order of the tokens,
with one exception: an assignment to something that cannot be assigned to is noted at its equals
sign, but only when the value behind that has been read. So it comes after the errors in the value.

`Parser.Places` carries this through the combinators, and `parse_findings` says it of whole
programs.
-/

namespace Treewalk

/-- The error is one that an expression can have without being given up. -/
def SyntaxError.InExpression : SyntaxError → Prop
  | tooManyArguments _ => True
  | invalidAssignmentTarget _ => True
  | _ => False

namespace Parser

/-! ## Indices -/

theorem getElem?_eq_tokenAt {tokens : List Token} {i : Nat} (h : i < tokens.length) :
    tokens[i]? = some (tokenAt tokens i) := by
  simp [tokenAt, h]

theorem endIndex_lt {tokens : List Token} {t : Token} (ht : t ∈ tokens) (hkind : t.kind = .eof) :
    endIndex tokens < tokens.length :=
  List.findIdx_lt_length_of_exists ⟨t, ht, by simpa using hkind⟩

/-- The token that stands for the end is the one at the index of the end, also if the tokens have
none. -/
theorem start_stop_eq (tokens : List Token) :
    (State.start tokens).stop = tokenAt tokens (endIndex tokens) := by
  change (tokens.find? _).getD _ = _
  unfold tokenAt endIndex
  induction tokens with
  | nil => rfl
  | cons t tokens ih => by_cases ht : t.kind = .eof <;> simp_all [List.findIdx_cons]

/-- The state is one in which the tokens are read, in front of the one with this index. -/
structure State.At (tokens : List Token) (i : Nat) (s : State) : Prop where
  le : i ≤ endIndex tokens
  rest_eq : s.rest = (State.start tokens).rest.drop i
  stop_eq : s.stop = (State.start tokens).stop

namespace State.At

variable {tokens : List Token} {i : Nat} {s : State}

theorem start (tokens : List Token) : (State.start tokens).At tokens 0 :=
  ⟨Nat.zero_le _, rfl, rfl⟩

/-- The tokens read and the tokens left are together those before the end. -/
theorem length_eq (h : s.At tokens i) : i + s.rest.length = endIndex tokens := by
  have hle := h.le
  rw [h.rest_eq, List.length_drop, length_start_rest]
  omega

/-- A state tells by the number of tokens left where it stands. -/
theorem unique {j : Nat} (hi : s.At tokens i) (hj : s.At tokens j) : i = j := by
  have hi := hi.length_eq
  have hj := hj.length_eq
  omega

theorem within (h : s.At tokens i) (fn : Bool) : (s.within fn).At tokens i :=
  ⟨h.le, h.rest_eq, h.stop_eq⟩

theorem rest_head? (h : s.At tokens i) (hlt : i < endIndex tokens) :
    s.rest.head? = some (tokenAt tokens i) := by
  have hlength : i < tokens.length := Nat.lt_of_lt_of_le hlt List.findIdx_le_length
  rw [h.rest_eq, start_rest_eq, List.head?_drop, List.getElem?_take_of_lt hlt,
    getElem?_eq_tokenAt hlength]

/-- The next token is the one with the index of the state, be it one of those left or the end. -/
theorem current_eq (h : s.At tokens i) : s.current = tokenAt tokens i := by
  have hlength := h.length_eq
  -- At the end the list is empty, and the next token is the one kept aside.
  cases hrest : s.rest with
  | nil =>
    have hi : i = endIndex tokens := by simpa [hrest] using hlength
    rw [State.current, hrest, hi, ← start_stop_eq, ← h.stop_eq]
    rfl
  | cons t rest =>
    have hlt : i < endIndex tokens := by
      rw [hrest, List.length_cons] at hlength
      omega
    have hhead := h.rest_head? hlt
    rw [hrest] at hhead
    rw [State.current, hrest]
    exact Option.some.inj hhead

/-- In front of the tokens that have been read. -/
theorem unread {s' : State} {ts : List Token} (h : (s'.unread ts).At tokens i) :
    s'.At tokens (i + ts.length) := by
  have hlength := h.length_eq
  rw [State.unread_rest, List.length_append] at hlength
  refine ⟨by omega, ?_, h.stop_eq⟩
  rw [← List.drop_drop, ← h.rest_eq, State.unread_rest, List.drop_left]

/-- Tokens that have been read are the ones with the indices from there on. -/
theorem tokenAt_eq {s' : State} {ts : List Token} (h : (s'.unread ts).At tokens i) {k : Nat}
    (hk : k < ts.length) : tokenAt tokens (i + k) ∈ ts := by
  have hlength := h.length_eq
  rw [State.unread_rest, List.length_append] at hlength
  have hlt : i + k < endIndex tokens := by omega
  have hlt' : i + k < tokens.length := Nat.lt_of_lt_of_le hlt List.findIdx_le_length
  have hget : ts[k]? = tokens[i + k]? := calc
    ts[k]? = (s'.unread ts).rest[k]? := (List.getElem?_append_left hk).symm
    _ = tokens[i + k]? := by
      rw [h.rest_eq, start_rest_eq, List.getElem?_drop, List.getElem?_take_of_lt hlt]
  refine List.mem_of_getElem? (i := k) ?_
  rw [hget, getElem?_eq_tokenAt hlt']

/-- Recovery goes on. -/
theorem synchronize (h : s.At tokens i) :
    ∃ j, i ≤ j ∧ ({ s with rest := synchronize s.rest } : State).At tokens j := by
  obtain ⟨ts, hts⟩ := Built.exists_synchronize s.rest
  have hs : s = ({ s with rest := Parser.synchronize s.rest } : State).unread ts := by
    rw [State.unread, ← hts]
  rw [hs] at h
  exact ⟨i + ts.length, Nat.le_add_right _ _, h.unread⟩

end State.At

/-- A state in which the tokens are read is what a cursor with that index is seen as. -/
theorem State.At.view_eq {tokens : List Token} {i : Nat} {s : State} (h : s.At tokens i) :
    (⟨tokens.toArray, i, s.inFunction⟩ : Cursor).view = s := by
  obtain ⟨rest, stop, hstop, fn⟩ := s
  obtain ⟨hle, hrest, hend⟩ := h
  subst hrest hend
  rw [Cursor.view, State.start_drop hle]
  rfl

theorem Cursor.view_at {tokens : List Token} {c : Cursor} (htokens : c.tokens = tokens.toArray)
    (hle : c.index ≤ endIndex tokens) : c.view.At tokens c.index := by
  rw [Cursor.view, htokens, State.start_drop hle]
  exact ⟨hle, rfl, rfl⟩

/-- Wherever a cursor has got to, the list it is seen as is in front of the token with its index. -/
theorem Cursor.Reaches.view_at {tokens : List Token} {c c' : Cursor} (h : c.Reaches c')
    (htokens : c.tokens = tokens.toArray) (hle : c.index ≤ endIndex tokens) :
    c'.view.At tokens c'.index := by
  refine Cursor.view_at (h.tokens_eq.trans htokens) ?_
  have hlength : c.index + c.left = endIndex tokens := (Cursor.view_at htokens hle).length_eq
  have hend := h.end_eq
  omega

/-- A parser reads the tokens up to another index, and they are of the kinds that it may take. -/
theorem Built.exists_at {K : TokenKind → Prop} {α : Type} {p : ListParser α} (h : Built K p)
    {tokens : List Token} {i : Nat} {s : State} (hs : s.At tokens i) :
    ∃ j, i ≤ j ∧ (p s).state.At tokens j ∧
      ∀ k, i ≤ k → k < j → K (tokenAt tokens k).kind := by
  obtain ⟨ts, hts, hkinds⟩ := h.forward s
  rw [hts] at hs
  refine ⟨i + ts.length, Nat.le_add_right _ _, hs.unread, fun k hk hlt => ?_⟩
  obtain ⟨d, rfl⟩ := Nat.exists_eq_add_of_le hk
  exact hkinds _ (hs.tokenAt_eq (by omega))

/-- A parser that gives up does so at the next token. -/
theorem Built.found_eq {K : TokenKind → Prop} {α : Type} {p : ListParser α} (h : Built K p)
    {s : State} {e : Unexpected} (he : (p s).result = .error e) :
    e.found = (p s).state.current := by
  induction h generalizing s with
  | @bind _ _ p f _ _ ihp ihf =>
    cases hr : (p s).result with
    | error e' =>
      rw [bind_error hr] at he ⊢
      cases he
      exact ihp hr
    | ok a =>
      rw [bind_ok hr] at he ⊢
      exact ihf a he
  | unexpected message =>
    cases he
    rfl
  | @accept kinds _ =>
    obtain ⟨o, ho⟩ := total_accept kinds s
    rw [ho] at he
    cases he
  | withinFunction _ ih => exact ih (s := s.within true) he
  | exhausted _ ih => exact ih he
  | @recovering _ p _ _ _ =>
    -- A declaration that is given up is an error in the notes, not in the result.
    obtain ⟨o, ho⟩ := total_recovering p s
    rw [ho] at he
    cases he
  | pure | peek | check | atEnd | report | inFunction => cases he

/-! ## Findings -/

/-- An error, and the index of the token at which it was found. -/
structure Finding where
  error : SyntaxError
  index : Nat

/-- How the value is read that is assigned at the equals sign with this index: the parser for
expressions starts right behind it, in the body of a function or not. -/
def valueReply (tokens : List Token) (equals : Nat) (fn : Bool) : Reply Cursor Halt Expr :=
  expression (tokens.length + 1) ⟨tokens.toArray, equals + 1, fn⟩

/-- The first error is in the value of an assignment, and the second is that this assignment has no
target. The first one is noted while the value is read, at a token behind the equals sign that is
not behind the place where that reading stops, and all tokens before it are tokens of expressions.
-/
structure Finding.InValueOf (tokens : List Token) (a b : Finding) : Prop where
  no_target : ∃ equals, b.error = .invalidAssignmentTarget equals
  inExpression : a.error.InExpression
  lt : b.index < a.index
  kinds : ∀ k, b.index < k → k < a.index → (tokenAt tokens k).kind ∈ expressionKinds
  read : ∃ fn value, (valueReply tokens b.index fn).result = .ok value ∧
    a.error ∈ (valueReply tokens b.index fn).notes.errors ∧
    a.index ≤ (valueReply tokens b.index fn).state.index

/-- What was found first does not stand behind what was found later, unless that is an assignment
without a target and what was found first is in its value. -/
def Finding.InOrder (tokens : List Token) (a b : Finding) : Prop :=
  a.index ≤ b.index ∨ a.InValueOf tokens b

/-- These are findings of a parser that has read the tokens from index `i` up to index `j`. All of
them are errors that `R` allows, and if no bound was used up, as `B` says, they are in order. -/
structure Findings (tokens : List Token) (B : Prop) (R : SyntaxError → Prop) (i j : Nat)
    (found : List Finding) : Prop where
  le : i ≤ j
  between : ∀ f ∈ found, i ≤ f.index ∧ f.index ≤ j
  token_eq : ∀ f ∈ found, f.error.token = tokenAt tokens f.index
  allowed : ∀ f ∈ found, R f.error
  ordered : B → found.Pairwise (Finding.InOrder tokens)

namespace Findings

variable {tokens : List Token} {B B' : Prop} {R R' : SyntaxError → Prop} {i j k : Nat}
  {found found' : List Finding}

theorem nil (h : i ≤ j) : Findings tokens B R i j [] := by
  constructor <;> simp [h]

theorem mono (h : Findings tokens B R j k found) (hle : i ≤ j) (hB : B' → B)
    (hR : ∀ e, R e → R' e) : Findings tokens B' R' i k found where
  le := Nat.le_trans hle h.le
  between f hf := ⟨Nat.le_trans hle (h.between f hf).1, (h.between f hf).2⟩
  token_eq := h.token_eq
  allowed f hf := hR _ (h.allowed f hf)
  ordered hB' := h.ordered (hB hB')

/-- The findings of two parsers, one behind the other, are in order: those of the first do not go
beyond where the second one starts. -/
theorem append (h : Findings tokens B R i j found) (h' : Findings tokens B R j k found') :
    Findings tokens B R i k (found ++ found') where
  le := Nat.le_trans h.le h'.le
  between f hf := by
    obtain hf | hf := List.mem_append.1 hf
    · exact ⟨(h.between f hf).1, Nat.le_trans (h.between f hf).2 h'.le⟩
    · exact ⟨Nat.le_trans h.le (h'.between f hf).1, (h'.between f hf).2⟩
  token_eq f hf := (List.mem_append.1 hf).elim (h.token_eq f) (h'.token_eq f)
  allowed f hf := (List.mem_append.1 hf).elim (h.allowed f) (h'.allowed f)
  ordered hB := by
    refine List.pairwise_append.2 ⟨h.ordered hB, h'.ordered hB, fun a ha b hb => .inl ?_⟩
    exact Nat.le_trans (h.between a ha).2 (h'.between b hb).1

theorem single {e : SyntaxError} (hle : i ≤ j) (htoken : e.token = tokenAt tokens i) (he : R e) :
    Findings tokens B R i j [⟨e, i⟩] := by
  constructor <;> simp [hle, htoken, he]

/-- Behind the errors in a value stands that it cannot be assigned to what is before it. -/
theorem concat {equals : Token} (h : Findings tokens B SyntaxError.InExpression (i + 1) j found)
    (hkinds : ∀ k, i + 1 ≤ k → k < j → (tokenAt tokens k).kind ∈ expressionKinds)
    (ht : tokenAt tokens i = equals)
    (hread : B → ∃ fn value, (valueReply tokens i fn).result = .ok value ∧
      (valueReply tokens i fn).notes.errors = found.map Finding.error ∧
      (valueReply tokens i fn).state.index = j) :
    Findings tokens B SyntaxError.InExpression i j
      (found ++ [⟨.invalidAssignmentTarget equals, i⟩]) where
  le := Nat.le_of_lt h.le
  between f hf := by
    obtain hf | hf := List.mem_append.1 hf
    · exact ⟨Nat.le_of_lt (h.between f hf).1, (h.between f hf).2⟩
    · cases List.mem_singleton.1 hf
      exact ⟨Nat.le_refl i, Nat.le_of_lt h.le⟩
  token_eq f hf := by
    obtain hf | hf := List.mem_append.1 hf
    · exact h.token_eq f hf
    · cases List.mem_singleton.1 hf
      exact ht.symm
  allowed f hf := by
    obtain hf | hf := List.mem_append.1 hf
    · exact h.allowed f hf
    · cases List.mem_singleton.1 hf
      trivial
  ordered hB := by
    refine List.pairwise_append.2
      ⟨h.ordered hB, List.pairwise_singleton _ _, fun a ha b hb => .inr ?_⟩
    cases List.mem_singleton.1 hb
    obtain ⟨fn, value, hvalue, hnotes, hindex⟩ := hread hB
    -- The equals sign stands before the whole value, so it is out of order with every error there.
    exact {
      no_target := ⟨equals, rfl⟩
      inExpression := h.allowed a ha
      lt := (h.between a ha).1
      kinds := fun k hk hlt => hkinds k hk (Nat.lt_of_lt_of_le hlt (h.between a ha).2)
      read := ⟨fn, value, hvalue, by rw [hnotes]; exact List.mem_map_of_mem ha,
        by rw [hindex]; exact (h.between a ha).2⟩ }

end Findings

/-- The errors of the reply were found from index `i` on, up to where the parser has come. -/
def Reply.Located {α : Type} (tokens : List Token) (B : Prop) (R : SyntaxError → Prop) (i : Nat)
    (r : ListReply α) : Prop :=
  ∃ j found, r.state.At tokens j ∧ r.notes.errors = found.map Finding.error ∧
    Findings tokens B R i j found

/-- Wherever the parser starts, it finds errors between there and where it ends, and in order if at
most `n` tokens are left. -/
def Places {α : Type} (n : Nat) (R : SyntaxError → Prop) (p : ListParser α) : Prop :=
  ∀ tokens i s, s.At tokens i → (p s).Located tokens (s.rest.length ≤ n) R i

/-- Right behind the token `t` the parser finds errors between that and where it ends, and in order
if at most `n` tokens are left. -/
def PlacesBehind {α : Type} (n : Nat) (R : SyntaxError → Prop) (t : Token) (p : ListParser α) :
    Prop :=
  ∀ tokens i s, s.At tokens (i + 1) → tokenAt tokens i = t →
    (p s).Located tokens (s.rest.length ≤ n) R i

section
variable {R R' : SyntaxError → Prop} {B B' : Prop} {α β : Type} {p : ListParser α}
  {f : α → ListParser β} {t : Token} {tokens : List Token} {i j m n : Nat} {s : State}

theorem Reply.Located.mono {r : ListReply α} (h : r.Located tokens B R j) (hle : i ≤ j)
    (hB : B' → B) (hR : ∀ e, R e → R' e) : r.Located tokens B' R' i := by
  obtain ⟨k, found, hk, herrors, hfound⟩ := h
  exact ⟨k, found, hk, herrors, hfound.mono hle hB hR⟩

/-- What a sequence finds is what its parts find. The first part has not put tokens back, so that
the second one starts with at most as many left. -/
theorem Reply.Located.bind (hs : s.At tokens i)
    (hp : (p s).Located tokens (s.rest.length ≤ n) R i)
    (hf : ∀ a, (p s).result = .ok a → (f a).Places n R) :
    ((p >>= f) s).Located tokens (s.rest.length ≤ n) R i := by
  obtain ⟨j, found, hj, herrors, hfound⟩ := hp
  cases hr : (p s).result with
  | error e =>
    rw [bind_error hr]
    exact ⟨j, found, hj, herrors, hfound⟩
  | ok a =>
    obtain ⟨k, found', hk, herrors', hfound'⟩ := hf a hr tokens j _ hj
    -- Not more tokens are left than before.
    have hfewer : s.rest.length ≤ n → (p s).state.rest.length ≤ n := by
      have hle := hfound.le
      have hlength := hs.length_eq
      have hlength' := hj.length_eq
      omega
    rw [bind_ok hr]
    exact ⟨k, found ++ found', hk, by simp [herrors, herrors'],
      hfound.append (hfound'.mono (Nat.le_refl j) hfewer fun _ he => he)⟩

theorem Places.mono (h : p.Places n R) (hle : m ≤ n) (hR : ∀ e, R e → R' e) : p.Places m R' :=
  fun tokens i s hs => (h tokens i s hs).mono (Nat.le_refl i) (Nat.le_trans · hle) hR

theorem Places.behind (h : p.Places n R) (t : Token) : p.PlacesBehind n R t :=
  fun tokens i s hs _ => (h tokens (i + 1) s hs).mono (Nat.le_succ i) id fun _ he => he

theorem Places.bind (hp : p.Places n R) (hf : ∀ a, (f a).Places n R) : (p >>= f).Places n R :=
  fun tokens i s hs => (hp tokens i s hs).bind hs fun a _ => hf a

/-- A parser that notes nothing finds nothing. -/
theorem Places.silent (h : Built (fun _ => True) p) (hnotes : ∀ s, (p s).notes.errors = []) :
    p.Places n R := by
  intro tokens i s hs
  obtain ⟨j, hle, hj, -⟩ := h.exists_at hs
  exact ⟨j, [], hj, hnotes s, .nil hle⟩

theorem Places.pure (a : α) : (pure a : ListParser α).Places n R :=
  .silent (.pure a) fun _ => rfl

theorem Places.map {g : α → β} (hp : p.Places n R) : (g <$> p).Places n R :=
  hp.bind fun a => .pure (g a)

theorem Places.unexpected (message : String) : (unexpected message : ListParser α).Places n R :=
  .silent (.unexpected message) fun _ => rfl

theorem Places.check (kind : TokenKind) : (check kind).Places n R :=
  .silent (.check kind) fun _ => rfl

theorem Places.atEnd : Parser.atEnd.Places n R :=
  .silent .atEnd fun _ => rfl

theorem Places.accept (kinds : List TokenKind) : (accept kinds).Places n R := by
  refine .silent (.accept fun _ _ => trivial) fun s => ?_
  rw [accept_notes]
  rfl

/-- A token that is read stands right before what follows. -/
theorem PlacesBehind.located (h : p.PlacesBehind n R t) (hs : (s.unread [t]).At tokens i) :
    (p s).Located tokens ((s.unread [t]).rest.length ≤ n + 1) R i := by
  have htoken : tokenAt tokens (i + 0) ∈ [t] := hs.tokenAt_eq Nat.one_pos
  exact (h tokens i s hs.unread (List.mem_singleton.1 htoken)).mono (Nat.le_refl i)
    Nat.le_of_succ_le_succ fun _ he => he

/-- Behind a token that is read, one token less is left. -/
theorem PlacesBehind.accepted {kinds : List TokenKind} {f : Option Token → ListParser β}
    (h : (f (some t)).PlacesBehind n R t) (hs : s.At tokens i)
    (ht : (Parser.accept kinds s).result = .ok (some t)) :
    ((Parser.accept kinds >>= f) s).Located tokens (s.rest.length ≤ n + 1) R i := by
  obtain ⟨-, hunread, hnotes⟩ := accept_some ht
  have hlocated := h.located (hunread ▸ hs)
  rw [← hunread] at hlocated
  obtain ⟨j, found, hj, herrors, hfound⟩ := hlocated
  rw [bind_ok ht, hnotes]
  exact ⟨j, found, hj, herrors, hfound⟩

/-- If a token is read, what comes next may rely on its index and has one token less in front of it.
-/
theorem Places.acceptThen {kinds : List TokenKind} {f : Option Token → ListParser β}
    (hnone : (f none).Places (n + 1) R) (hsome : ∀ t, (f (some t)).PlacesBehind n R t) :
    (Parser.accept kinds >>= f).Places (n + 1) R := by
  intro tokens i s hs
  obtain ⟨o, ho⟩ := total_accept kinds s
  cases o with
  | none =>
    refine (Places.accept kinds tokens i s hs).bind hs fun o' ho' => ?_
    cases ho.symm.trans ho'
    exact hnone
  | some t =>
    -- `Places.bind` would forget that the token which was read is the one at index `i`.
    exact (hsome t).accepted hs ho

theorem Places.expect (kind : TokenKind) (message : String) :
    (expect kind message).Places n R := by
  refine (Places.accept [kind]).bind fun o => ?_
  cases o with
  | none => exact .unexpected message
  | some t => exact .pure t

/-- The same for a token that has to be there. -/
theorem Places.expectThen {kind : TokenKind} {message : String} {f : Token → ListParser β}
    (h : ∀ t, (f t).PlacesBehind n R t) : (Parser.expect kind message >>= f).Places n R := by
  intro tokens i s hs
  cases hr : (Parser.expect kind message s).result with
  | error e =>
    rw [bind_error hr]
    exact Places.expect kind message tokens i s hs
  | ok t =>
    have hread := exists_accept_of_expect hr
    have hunread := (accept_some hread).2.1
    have hlocated := (h t).located (hunread ▸ hs)
    rw [← hunread] at hlocated
    obtain ⟨j, found, hj, herrors, hfound⟩ := hlocated
    rw [bind_ok hr, expect_of_accept hread]
    exact ⟨j, found, hj, herrors, hfound.mono (Nat.le_refl i) Nat.le_succ_of_le fun _ he => he⟩

/-- An error that is noted at the next token. -/
theorem Places.reportCurrent {error : Token → SyntaxError} (htoken : ∀ t, (error t).token = t)
    (hR : ∀ t, R (error t)) (hp : p.Places n R) :
    (Parser.peek >>= fun t => report (error t) >>= fun _ => p).Places n R := by
  intro tokens i s hs
  rw [peek_bind]
  obtain ⟨j, found, hj, herrors, hfound⟩ := hp tokens i s hs
  refine ⟨j, ⟨error s.current, i⟩ :: found, hj, congrArg (error s.current :: ·) herrors, ?_⟩
  exact Findings.append
    (.single (Nat.le_refl i) ((htoken _).trans hs.current_eq) (hR _)) hfound

/-- An error that is noted at the token just read. -/
theorem PlacesBehind.report {e : SyntaxError} (htoken : e.token = t) (he : R e)
    (hp : p.Places n R) : (report e >>= fun _ => p).PlacesBehind n R t := by
  intro tokens i s hs ht
  obtain ⟨j, found, hj, herrors, hfound⟩ := hp tokens (i + 1) s hs
  refine ⟨j, ⟨e, i⟩ :: found, hj, congrArg (e :: ·) herrors, ?_⟩
  exact Findings.append (.single (Nat.le_succ i) (htoken.trans ht.symm) he) hfound

/-- Whether tokens are in a function has no influence on where errors are found. -/
theorem Places.withinFunction (hp : p.Places n R) : (withinFunction p).Places n R := by
  intro tokens i s hs
  obtain ⟨j, found, hj, herrors, hfound⟩ := hp tokens i (s.within true) (hs.within true)
  exact ⟨j, found, hj.within s.inFunction, herrors, hfound⟩

/-- A declaration is given up at the next token. -/
theorem Places.recovering (hp : p.Places n fun _ => True) (hbuilt : Built (fun _ => True) p) :
    (recovering p).Places n fun _ => True := by
  intro tokens i s hs
  obtain ⟨j, found, hj, herrors, hfound⟩ := hp tokens i s hs
  cases hr : (p s).result with
  | ok a =>
    rw [recovering_ok hr]
    exact ⟨j, found, hj, herrors, hfound⟩
  | error e =>
    have htoken : e.found = tokenAt tokens j := (hbuilt.found_eq hr).trans hj.current_eq
    obtain ⟨k, hjk, hk⟩ := hj.synchronize
    have hlast : Findings tokens (s.rest.length ≤ n) (fun _ => True) j k
        [⟨.unexpectedToken e, j⟩] := .single hjk htoken trivial
    rw [recovering_error hr]
    exact ⟨k, _, hk, by simp [herrors], hfound.append hlast⟩

/-- The rounds of a repetition follow each other, so that their findings do too. -/
theorem Places.many {p : ListParser (Option α)} (hp : p.Places n R) (bound : Nat) :
    (many p bound).Places n R := by
  induction bound with
  | zero => exact .pure []
  | succ bound ih =>
    refine hp.bind fun o => ?_
    cases o with
    | none => exact .pure []
    | some a => exact ih.map

/-- The items of a list follow each other, with commas in between. -/
theorem Places.commaList {item : List α → ListParser α}
    (hitem : ∀ before, (item before).Places n R) (bound : Nat) (before : List α) :
    (commaList item bound before).Places n R := by
  induction bound generalizing before with
  | zero => exact (hitem before).map
  | succ bound ih =>
    refine (hitem before).bind fun a => (Places.accept [.comma]).bind fun o => ?_
    cases o with
    | none => exact .pure _
    | some comma => exact ih _

theorem Places.items {item : List α → ListParser α}
    (hitem : ∀ before, (item before).Places n R) (bound : Nat) : (items bound item).Places n R := by
  refine (Places.check .rightParen).bind fun found => ?_
  cases found with
  | true => exact .pure []
  | false => exact .commaList hitem bound []

end

/-! ## Expressions -/

section
variable {R : SyntaxError → Prop} {n : Nat} {inner : ListParser Expr}

/-- A primary expression finds no error but those of an expression in parentheses. -/
theorem primary_places (hinner : inner.Places n R) : (primary inner).Places (n + 1) R := by
  intro tokens i s hs
  have hliteral : ∀ value, (primary.literalToken s.current value).Places (n + 1) R :=
    fun value => (Places.accept _).bind fun _ => .pure _
  change ((peek >>= _) s).Located _ _ _ _
  rw [peek_bind]
  by_cases hparen : s.current.kind = .leftParen
  · -- The parenthesis is read, so that one token less is left for what stands inside.
    have hne : s.rest ≠ [] := by
      intro hnil
      simp [State.current, hnil, s.stop_kind] at hparen
    have hread := accept_current hne
    have hgroup : (inner >>= fun e => expect .rightParen "Expect ')' after expression." >>= fun _ =>
        pure (Expr.group e)).Places n R := hinner.bind fun _ => (Places.expect _ _).map
    simp only [hparen] at hread ⊢
    exact (hgroup.behind s.current).accepted hs hread
  · refine (?_ : Places (n + 1) R _) tokens i s hs
    split
    case h_6 => exact (Places.accept _).bind fun _ => .pure _
    case h_7 => contradiction
    case h_8 => exact .unexpected _
    all_goals exact hliteral _

theorem argument_places (hR : ∀ t, R (.tooManyArguments t)) (hinner : inner.Places n R)
    (before : List Expr) : (argument inner before).Places n R := by
  unfold argument
  split
  · exact .reportCurrent (fun _ => rfl) hR hinner
  · exact hinner

/-- An argument too many is reported at its first token, which is the current one. -/
theorem arguments_places (hR : ∀ t, R (.tooManyArguments t)) (hinner : inner.Places n R)
    (bound : Nat) : (arguments bound inner).Places (n + 1) R := by
  have hclosed : (items bound (argument inner) >>= fun args =>
      expect .rightParen "Expect ')' after arguments." >>= fun paren =>
      pure (some (args, paren))).Places n R :=
    (Places.items (argument_places hR hinner) bound).bind fun _ => (Places.expect _ _).map
  exact .acceptThen (.pure none) fun left => hclosed.behind left

theorem unary_places (hR : ∀ t, R (.tooManyArguments t)) (hinner : inner.Places n R) (bound : Nat) :
    (unary bound inner).Places (n + 1) R := by
  have hcall : (call bound inner).Places (n + 1) R :=
    (primary_places hinner).bind fun _ => ((arguments_places hR hinner bound).many bound).map
  exact ((Places.accept _).many bound).bind fun _ => hcall.map

/-- Operators and operands are read from left to right on every level. -/
theorem Level.expression_places (level : Level) (bound : Nat) {operand : ListParser Expr}
    (hoperand : operand.Places n R) : (level.expression bound operand).Places n R := by
  have hoperation : (operation level.operators operand).Places n R := by
    refine (Places.accept _).bind fun o => ?_
    cases o with
    | none => exact .pure none
    | some op => exact hoperand.map
  exact hoperand.bind fun _ => (hoperation.many bound).map

theorem operations_places (hR : ∀ t, R (.tooManyArguments t)) (hinner : inner.Places n R)
    (bound : Nat) : (operations bound inner).Places (n + 1) R := by
  unfold operations
  induction Level.ladder with
  | nil => exact unary_places hR hinner bound
  | cons level levels ih => exact level.expression_places bound ih

/-- The parser reads values as they are read behind an equals sign, if at most `n` tokens are left.
-/
def ReadsValues (n : Nat) (inner : ListParser Expr) : Prop :=
  ∀ tokens i s, s.At tokens (i + 1) → s.rest.length ≤ n →
    (valueReply tokens i s.inFunction).Shows (inner s)

/-- With enough room, the parser on lists reads a value just as the parser does that runs. It is
this reading that `Finding.InValueOf` speaks of. -/
theorem expression_readsValues (n : Nat) : ReadsValues n (expression n) := by
  intro tokens i s hs hn
  have hle : endIndex tokens ≤ tokens.length := List.findIdx_le_length
  have hlength := hs.length_eq
  have hagree : Agree s.rest.length (expression (tokens.length + 1) : Parser Cursor Halt Expr)
      (expression n) := expression_agree (by change _ + 1 ≤ _; omega) hn
  have hview : view (⟨tokens.toArray, i + 1, s.inFunction⟩ : Cursor) = s := hs.view_eq
  have hshows := hagree.shows ⟨tokens.toArray, i + 1, s.inFunction⟩ (hview.symm ▸ Nat.le_refl _)
  rwa [hview] at hshows

/-- An assignment without a target is noted behind the errors of its value. -/
theorem assignment_places (hinner : inner.Places n SyntaxError.InExpression)
    (hbuilt : Built (· ∈ expressionKinds) inner) (hvalues : ReadsValues n inner) (bound : Nat) :
    (assignment bound inner).Places (n + 1) SyntaxError.InExpression := by
  refine (operations_places (fun _ => trivial) hinner bound).bind fun target => ?_
  refine .acceptThen (.pure target) fun equals => ?_
  change (inner >>= _).PlacesBehind _ _ _
  intro tokens i s hs ht
  obtain ⟨j, found, hj, herrors, hfound⟩ := hinner tokens (i + 1) s hs
  -- The value is the tokens up to where it ends, and these are all tokens of expressions.
  obtain ⟨j', -, hj', hkinds⟩ := hbuilt.exists_at hs
  obtain rfl := hj.unique hj'
  cases hr : (inner s).result with
  | error e =>
    rw [bind_error hr]
    exact ⟨j, found, hj, herrors, hfound.mono (Nat.le_succ i) id fun _ he => he⟩
  | ok value =>
    rw [bind_ok hr]
    split
    · exact ⟨j, found, hj, by simp [herrors, pure, Parser.pure],
        hfound.mono (Nat.le_succ i) id fun _ he => he⟩
    · refine ⟨j, _, hj, by simp [herrors]; rfl, hfound.concat hkinds ht fun hn => ?_⟩
      obtain ⟨hresult, hview, hnotes⟩ := hvalues tokens i s hs hn
      refine ⟨s.inFunction, value, by rw [hresult, hr]; rfl, by rw [hnotes, herrors], ?_⟩
      have hat : (view (valueReply tokens i s.inFunction).state).At tokens
          (valueReply tokens i s.inFunction).state.index :=
        ((expression_built _).reaches _).view_at rfl hs.le
      rw [hview] at hat
      exact hat.unique hj

end

/-- An expression finds errors in order, by induction on how deep it may go. -/
theorem expression_places (bound : Nat) :
    (expression bound).Places bound SyntaxError.InExpression := by
  induction bound with
  | zero => exact .unexpected _
  | succ bound ih =>
    exact assignment_places ih (expression_built bound) (expression_readsValues bound) (bound + 1)

/-! ## Statements -/

section
variable {n : Nat} {E : ListParser Expr} {S : ListParser Stmt} {D : ListParser (Option Stmt)}

theorem expressionStatement_places (hE : E.Places n fun _ => True) :
    (expressionStatement E).Places n fun _ => True :=
  hE.bind fun _ => (Places.expect _ _).bind fun _ => .pure _

theorem printStatement_places (hE : E.Places n fun _ => True) :
    (printStatement E).Places n fun _ => True :=
  hE.bind fun _ => (Places.expect _ _).bind fun _ => .pure _

/-- A declaration finds the errors of its initial value only. -/
theorem varDeclaration_places (hE : E.Places n fun _ => True) :
    (varDeclaration E).Places n fun _ => True := by
  -- With an initial value or without one, a semicolon is all that comes next.
  have hend : ∀ (name : Token) (e : Option Expr), Places n (fun _ => True) (do
      let _ ← expect .semicolon "Expect ';' after variable declaration."
      pure (Stmt.var name e)) := fun _ _ => (Places.expect _ _).bind fun _ => .pure _
  refine (Places.expect _ _).bind fun name => (Places.accept _).bind fun o => ?_
  cases o with
  | none => exact hend name none
  | some equals => exact hE.map.bind (hend name)

theorem clause_places {R : SyntaxError → Prop} (hE : E.Places n R) (stop : TokenKind) :
    (clause stop E).Places n R := by
  refine (Places.check stop).bind fun found => ?_
  cases found with
  | true => exact .pure none
  | false => exact hE.map

/-- The first clause of a for statement, whichever of its three forms it has. -/
theorem initializer_places (hE : E.Places n fun _ => True) :
    (initializer E).Places n fun _ => True := by
  refine (Places.accept _).bind fun o => ?_
  cases o with
  | none => exact (expressionStatement_places hE).map
  | some t =>
    by_cases ht : t.kind = .semicolon
    · simp only [ht, if_true]
      exact .pure none
    · simp only [ht, if_false]
      exact (varDeclaration_places hE).map

/-- A return outside a function is noted at the word for it, which has been read. -/
theorem returnStatement_places (hE : E.Places n fun _ => True) (keyword : Token) :
    (returnStatement E keyword).PlacesBehind n (fun _ => True) keyword := by
  have hend : Places n (fun _ => True) (do
      let value ← clause .semicolon E
      let _ ← expect .semicolon "Expect ';' after return value."
      pure (Stmt.ret keyword value)) :=
    (clause_places hE _).bind fun _ => (Places.expect _ _).bind fun _ => .pure _
  intro tokens i s hs ht
  -- Whether there is an error depends on the state, so this is not an instance of a combinator.
  change Reply.Located tokens _ _ i ((inFunction >>= _) s)
  rw [inFunction_bind]
  cases s.inFunction with
  | true => exact hend.behind keyword tokens i s hs ht
  | false =>
    exact PlacesBehind.report rfl trivial hend tokens i s hs ht

/-- A parameter too many is reported in front of its name, and a name that occurs twice right behind
it. Both are reported at the name, which is one token. -/
theorem parameter_places {R : SyntaxError → Prop} (hmany : ∀ t, R (.tooManyParameters t))
    (htwice : ∀ t, R (.duplicateParameter t)) (before : List Token) :
    (parameter before).Places n R := by
  have hname : Places n R (do
      let name ← expect .identifier "Expect parameter name."
      if before.any fun p => p.lexeme == name.lexeme then
        report (.duplicateParameter name)
      pure name) := by
    refine .expectThen fun name => ?_
    split
    · exact .report rfl (htwice name) (.pure name)
    · exact (Places.pure name).behind name
  unfold parameter
  split
  · exact .reportCurrent (fun _ => rfl) hmany hname
  · exact hname

theorem block_places (hD : D.Places n fun _ => True) (bound : Nat) :
    (block bound D).Places n fun _ => True := by
  have hnext : (declarations.next D).Places n fun _ => True := by
    refine Places.atEnd.bind fun ended => (Places.check _).bind fun found => ?_
    cases ended || found with
    | true => exact .pure none
    | false => exact hD.map
  exact (hnext.many bound).map.bind fun _ => (Places.expect _ _).bind fun _ => .pure _

theorem funDeclaration_places (hD : D.Places n fun _ => True) (bound : Nat) :
    (funDeclaration bound D).Places n fun _ => True :=
  (Places.expect _ _).bind fun _ => (Places.expect _ _).bind fun _ =>
    (Places.items (parameter_places (fun _ => trivial) fun _ => trivial) bound).bind fun _ =>
    (Places.expect _ _).bind fun _ => (Places.expect _ _).bind fun _ =>
    (block_places hD bound).withinFunction.bind fun _ => .pure _

theorem ifStatement_places (hE : E.Places n fun _ => True) (hS : S.Places n fun _ => True) :
    (ifStatement E S).Places n fun _ => True := by
  refine (Places.expect _ _).bind fun _ => hE.bind fun cond => (Places.expect _ _).bind fun _ =>
    hS.bind fun thenBranch => (Places.accept _).bind fun o => ?_
  cases o with
  | none => exact .pure _
  | some word => exact hS.map.bind fun _ => .pure _

theorem whileStatement_places (hE : E.Places n fun _ => True) (hS : S.Places n fun _ => True) :
    (whileStatement E S).Places n fun _ => True :=
  (Places.expect _ _).bind fun _ => hE.bind fun _ => (Places.expect _ _).bind fun _ =>
    hS.bind fun _ => .pure _

theorem forStatement_places (hE : E.Places n fun _ => True) (hS : S.Places n fun _ => True) :
    (forStatement E S).Places n fun _ => True :=
  (Places.expect _ _).bind fun _ => (initializer_places hE).bind fun _ =>
    (clause_places hE _).bind fun _ => (Places.expect _ _).bind fun _ =>
    (clause_places hE _).bind fun _ => (Places.expect _ _).bind fun _ =>
    hS.bind fun _ => .pure _

/-- One step of the induction for statements. -/
theorem statementOf_places (hS : S.Places n fun _ => True) (hD : D.Places n fun _ => True) :
    (statementOf (n + 1) S D).Places (n + 1) fun _ => True := by
  have hfirst := (expression_places (n + 1)).mono (Nat.le_refl _) fun _ _ => trivial
  have hE := hfirst.mono (Nat.le_succ n) fun _ he => he
  -- Without a word to start with, the expression may begin at the current token; behind a word
  -- there is one token less, as the induction hypothesis needs.
  refine .acceptThen (expressionStatement_places hfirst) fun t => ?_
  dsimp only
  split
  · exact (ifStatement_places hE hS).behind t
  · exact (forStatement_places hE hS).behind t
  · exact (whileStatement_places hE hS).behind t
  · exact (printStatement_places hE).behind t
  · exact returnStatement_places hE t
  · exact (block_places hD (n + 1)).map.behind t

/-- The parser for statements, with its cases as a chain of tests. Unlike a match, this form can be
rewritten one case at a time. -/
theorem statementOf_eq (bound : Nat) (S : ListParser Stmt) (D : ListParser (Option Stmt)) :
    statementOf bound S D = accept statementWords >>= fun o =>
      o.elim (expressionStatement (expression bound)) fun t =>
        if t.kind = .ifWord then ifStatement (expression bound) S
        else if t.kind = .forWord then forStatement (expression bound) S
        else if t.kind = .whileWord then whileStatement (expression bound) S
        else if t.kind = .printWord then printStatement (expression bound)
        else if t.kind = .returnWord then returnStatement (expression bound) t
        else Stmt.block <$> block bound D := by
  refine congrArg (accept statementWords >>= ·) (funext fun o => ?_)
  cases o with
  | none => rfl
  | some t =>
    dsimp only [Option.elim]
    split <;> simp_all

/-- What is tried for a declaration. -/
def declared (bound : Nat) (S : ListParser Stmt) (D : ListParser (Option Stmt)) : ListParser Stmt :=
  accept [.funWord, .varWord] >>= fun o => o.elim (statementOf bound S D) fun t =>
    if t.kind = .funWord then funDeclaration bound D else varDeclaration (expression bound)

/-- A declaration is what is tried, and recovery. -/
theorem declarationOf_eq (bound : Nat) (S : ListParser Stmt) (D : ListParser (Option Stmt)) :
    declarationOf bound S D = recovering (declared bound S D) := by
  refine congrArg recovering (congrArg (accept _ >>= ·) (funext fun o => ?_))
  cases o <;> rfl

theorem declared_built (bound : Nat) (hS : Closing S) (hD : Built (fun _ => True) D) :
    Built (fun _ => True) (declared bound S D) := by
  refine .bind (.accept fun _ _ => trivial) fun o => ?_
  cases o with
  | none => exact (statementOf_closing bound hS hD).built
  | some t =>
    dsimp only [Option.elim]
    split
    · exact (funDeclaration_closing hD bound).built
    · exact (varDeclaration_closing (expression_built bound).any).built

/-- One step of the induction for declarations. Recovery comes on top of it. -/
theorem declared_places (hS : S.Places n fun _ => True) (hD : D.Places n fun _ => True) :
    (declared (n + 1) S D).Places (n + 1) fun _ => True := by
  refine .acceptThen (statementOf_places hS hD) fun t => ?_
  dsimp only [Option.elim]
  split
  · exact (funDeclaration_places hD (n + 1)).behind t
  · have hE := (expression_places (n + 1)).mono (Nat.le_succ n) fun _ _ => trivial
    exact (varDeclaration_places hE).behind t

end

/-- Statements and declarations contain each other, so that both are treated at once. -/
theorem statement_places (bound : Nat) :
    (statement bound).Places bound (fun _ => True) ∧
      (declaration bound).Places bound fun _ => True := by
  induction bound with
  | zero =>
    rw [statement, declaration]
    exact ⟨.unexpected _, .recovering (.unexpected _) (.unexpected _)⟩
  | succ bound ih =>
    obtain ⟨hS, hD⟩ := ih
    rw [statement, declaration, declarationOf_eq]
    refine ⟨statementOf_places hS hD, .recovering (declared_places hS hD) ?_⟩
    exact declared_built _ (statement_closing bound).1 (declaration_ending bound).built

/-- A whole program finds errors in order, if its bound covers the tokens left. -/
theorem program_places (bound : Nat) : (program bound).Places bound fun _ => True := by
  have hnext : (program.next bound).Places bound fun _ => True := by
    refine Places.atEnd.bind fun ended => ?_
    cases ended with
    | true => exact .pure none
    | false => exact (statement_places bound).2.map
  exact (hnext.many bound).map

end Parser

open Treewalk.Parser in
/-- Every error in a program is found at one of its tokens or at its end, and errors are noted in
the order of the tokens, but for assignments without a target. -/
theorem parse_findings (tokens : List Token) :
    ∃ found : List Finding, (parse tokens).errors = found.map Finding.error ∧
      Findings tokens True (fun _ => True) 0 (endIndex tokens) found := by
  rw [parse_eq]
  obtain ⟨j, found, hj, herrors, hfound⟩ := program_places _ tokens 0 _ (.start tokens)
  have hall := hfound.mono (Nat.le_refl 0) (fun _ : True => Nat.le_refl _) fun _ he => he
  exact ⟨found, herrors, by simpa using hall.append (.nil hj.le)⟩

end Treewalk
