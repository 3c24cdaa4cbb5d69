import Treewalk.Proofs.Parsing.Locality

/-!
# Bounds are not used up

The parsers of nested phrases and of lists take a bound on the number of rounds. Every round takes a
token, so a bound above the number of tokens left is never used up: whatever a reader does in that
case, it does the same as any other reader.

A reader is compared with the list of the tokens that are left. `View` says how to see its states as
such lists, and `Parser.Agree` that a parser does the same for both, as long as at most `n` tokens
are left. It is proved along the grammar, by induction on `n`. The bounds on the two sides may
differ, so that for two lists it says that bounds are not noticed, and for a reader with an outcome
of its own for a bound that is used up it says that this outcome does not occur.
-/

namespace Treewalk.Parser

/-! ## Readers seen as lists -/

/-- Every state of the reader can be seen as a list of tokens, with which it does the same. A bound
is used up only if it is less than `spare` above the number of tokens left. -/
class View (σ : Type) {ε : outParam Type} [Reader σ ε] where
  view : σ → State
  spare : Nat
  current_eq (s : σ) : Reader.current s = (view s).current
  atEnd_eq (s : σ) : Reader.atEnd s = (view s).rest.isEmpty
  check_eq (kind : TokenKind) (s : σ) : Reader.check kind s = Reader.check kind (view s)
  take?_eq (kinds : List TokenKind) (s : σ) :
    (Reader.take? kinds s).map (Prod.map id view) = (view s).take? kinds
  synchronize_eq (s : σ) : view (Reader.synchronize s) = Reader.synchronize (view s)
  inFunction_eq (s : σ) : Reader.inFunction s = (view s).inFunction
  within_eq (s : σ) (fn : Bool) : view (Reader.within s fn) = (view s).within fn
  refused?_refusal (u : Unexpected) : Reader.refused? σ (Reader.refusal σ u) = some u
  boundReached_eq : spare = 0 → Reader.boundReached σ = none

export View (view spare)

instance : View State where
  view := id
  spare := 0
  current_eq _ := rfl
  atEnd_eq _ := rfl
  check_eq _ _ := rfl
  take?_eq _ s := by simp [Reader.take?]
  synchronize_eq _ := rfl
  inFunction_eq _ := rfl
  within_eq _ _ := rfl
  refused?_refusal _ := rfl
  boundReached_eq _ := rfl

section
variable {σ ε α β : Type} [Reader σ ε] [View σ]

/-- The reply is the one on the list of the tokens left. -/
structure Reply.Shows (r : Reply σ ε α) (r' : ListReply α) : Prop where
  result_eq : r.result = r'.result.mapError (Reader.refusal σ)
  view_eq : view r.state = r'.state
  notes_eq : r.notes = r'.notes

/-- The parsers do the same in front of at most `n` tokens. The second one is built from the basic
parsers, so that it does not leave more tokens than it was given. -/
structure Agree (n : Nat) (p : Parser σ ε α) (q : ListParser α) : Prop where
  built : Built (fun _ => True) q
  shows (s : σ) : (view s).rest.length ≤ n → (p s).Shows (q (view s))

/-- For lists, the same is the same. -/
theorem Agree.eq {n : Nat} {p q : ListParser α} (h : Agree n p q) {s : State}
    (hs : s.rest.length ≤ n) : p s = q s := by
  obtain ⟨hresult, hstate, hnotes⟩ := h.shows s hs
  change (p s).result = (q s).result.mapError id at hresult
  change (p s).state = (q s).state at hstate
  change (p s).notes = (q s).notes at hnotes
  have hid : (q s).result.mapError id = (q s).result := by cases (q s).result <;> rfl
  rw [hid] at hresult
  change Reply.mk (p s).result (p s).state (p s).notes = _
  rw [hresult, hstate, hnotes]

end

section
variable {σ ε α β : Type} [Reader σ ε] [View σ] {n : Nat} {p : Parser σ ε α} {q : ListParser α}
  {f : α → Parser σ ε β} {g : α → ListParser β} {s : σ}

/-- A sequence shows the sequence of the parsers that its parts show. The second parts have to be
compared only for the result that the first one has. -/
theorem Reply.Shows.bind {s' : State} (hp : (p s).Shows (q s'))
    (hf : ∀ a, (q s').result = .ok a → (f a (p s).state).Shows (g a (q s').state)) :
    ((p >>= f) s).Shows ((q >>= g) s') := by
  have hresult := hp.result_eq
  cases hr : (q s').result with
  | error e =>
    rw [hr] at hresult
    rw [bind_error hr, bind_error hresult]
    exact ⟨rfl, hp.view_eq, hp.notes_eq⟩
  | ok a =>
    rw [hr] at hresult
    have hrest := hf a hr
    rw [bind_ok hr, bind_ok hresult]
    exact ⟨hrest.result_eq, hrest.view_eq, by rw [hp.notes_eq, hrest.notes_eq]⟩

/-- Agreement in front of more tokens is agreement in front of fewer. -/
theorem Agree.mono {m : Nat} (h : Agree n p q) (hle : m ≤ n) : Agree m p q :=
  ⟨h.built, fun s hs => h.shows s (Nat.le_trans hs hle)⟩

theorem Agree.bind (hp : Agree n p q) (hf : ∀ a, Agree n (f a) (g a)) :
    Agree n (p >>= f) (q >>= g) := by
  refine ⟨.bind hp.built fun a => (hf a).built, fun s hs => ?_⟩
  have hshows := hp.shows s hs
  refine hshows.bind fun a _ => ?_
  -- What is left behind the first parser is not more than what was left before it.
  have hle := hp.built.rest_length_le (view s)
  rw [← hshows.view_eq] at hle ⊢
  exact (hf a).shows _ (Nat.le_trans hle hs)

theorem Agree.pure (a : α) : Agree n (pure a : Parser σ ε α) (pure a) :=
  ⟨.pure a, fun _ _ => ⟨rfl, rfl, rfl⟩⟩

theorem Agree.map {h : α → β} (hp : Agree n p q) : Agree n (h <$> p) (h <$> q) :=
  hp.bind fun a => .pure (h a)

theorem Agree.peek : Agree n (peek : Parser σ ε Token) peek :=
  ⟨.peek, fun s _ => ⟨congrArg Except.ok (View.current_eq s), rfl, rfl⟩⟩

theorem Agree.atEnd : Agree n (atEnd : Parser σ ε Bool) atEnd :=
  ⟨.atEnd, fun s _ => ⟨congrArg Except.ok (View.atEnd_eq s), rfl, rfl⟩⟩

theorem Agree.check (kind : TokenKind) : Agree n (check kind : Parser σ ε Bool) (check kind) :=
  ⟨.check kind, fun s _ => ⟨congrArg Except.ok (View.check_eq kind s), rfl, rfl⟩⟩

theorem Agree.report {e : SyntaxError} (he : e.unexpected? = none) :
    Agree n (report e : Parser σ ε Unit) (report e) :=
  ⟨.report he, fun _ _ => ⟨rfl, rfl, rfl⟩⟩

theorem Agree.inFunction : Agree n (inFunction : Parser σ ε Bool) inFunction :=
  ⟨.inFunction, fun s _ => ⟨congrArg Except.ok (View.inFunction_eq s), rfl, rfl⟩⟩

theorem Agree.unexpected (message : String) :
    Agree n (unexpected message : Parser σ ε α) (unexpected message) := by
  refine ⟨.unexpected message, fun s _ => ⟨?_, rfl, rfl⟩⟩
  simp only [Parser.unexpected, View.current_eq]
  rfl

/-- A reader takes a token where its list does. This is what `View.take?_eq` asks of it. -/
theorem Agree.accept (kinds : List TokenKind) :
    Agree n (accept kinds : Parser σ ε (Option Token)) (accept kinds) := by
  refine ⟨.accept fun _ _ => trivial, fun s _ => ?_⟩
  have htake := View.take?_eq kinds s
  change _ = Reader.take? kinds (view s) at htake
  simp only [Parser.accept, ← htake]
  cases Reader.take? kinds s with
  | none => exact ⟨rfl, rfl, rfl⟩
  | some read => exact ⟨rfl, rfl, rfl⟩

/-- A token that is taken is no longer left. -/
theorem length_accept_lt {kinds : List TokenKind} {s : State} {t : Token}
    (h : (accept kinds s).result = .ok (some t)) :
    (accept kinds s).state.rest.length < s.rest.length := by
  rw [congrArg State.rest (accept_some h).2.1]
  simp

/-- What follows a token that was read stands in front of one token less. -/
theorem Agree.acceptThen {kinds : List TokenKind} {f : Option Token → Parser σ ε β}
    {g : Option Token → ListParser β} (hnone : Agree (n + 1) (f none) (g none))
    (hsome : ∀ t, Agree n (f (some t)) (g (some t))) :
    Agree (n + 1) (Parser.accept kinds >>= f) (Parser.accept kinds >>= g) := by
  have haccept : Agree (n + 1) (Parser.accept kinds : Parser σ ε (Option Token))
      (Parser.accept kinds) := .accept kinds
  refine ⟨.bind haccept.built fun o => ?_, fun s hs => ?_⟩
  · cases o with
    -- No token was taken, and nothing more is known about what follows.
    | none => exact hnone.built
    | some t => exact (hsome t).built
  · have hshows := haccept.shows s hs
    have hle := haccept.built.rest_length_le (view s)
    refine hshows.bind fun o ho => ?_
    cases o with
    | none =>
      rw [← hshows.view_eq] at hle ⊢
      exact hnone.shows _ (Nat.le_trans hle hs)
    | some t =>
      have hlt := length_accept_lt ho
      rw [← hshows.view_eq] at hlt ⊢
      exact (hsome t).shows _ (by omega)

theorem Agree.expect (kind : TokenKind) (message : String) :
    Agree n (expect kind message : Parser σ ε Token) (expect kind message) := by
  refine (Agree.accept [kind]).bind fun o => ?_
  cases o with
  | none => exact .unexpected message
  | some t => exact .pure t

/-- The mark is set on the list as it is on the reader, and it is put back on both. -/
theorem Agree.withinFunction (h : Agree n p q) :
    Agree n (withinFunction p) (withinFunction q) := by
  refine ⟨.withinFunction h.built, fun s hs => ?_⟩
  have hview := View.within_eq s true
  have hinner := h.shows (Reader.within s true) (by rw [hview]; exact hs)
  rw [hview] at hinner
  refine ⟨hinner.result_eq, ?_, hinner.notes_eq⟩
  rw [withinFunction_list, ← hinner.view_eq, ← View.inFunction_eq s]
  exact View.within_eq _ _

/-- An error on the list is a refusal for the reader, so that both recover and go on at the same
boundary. -/
theorem Reply.Shows.recovering {s : σ} (h : (p s).Shows (q (view s))) :
    (recovering p s).Shows (recovering q (view s)) := by
  obtain ⟨hresult, hview, hnotes⟩ := h
  cases hr : (q (view s)).result with
  | ok a =>
    rw [hr] at hresult
    rw [recovering_ok hr, recovering_ok hresult]
    exact ⟨rfl, hview, hnotes⟩
  | error e =>
    rw [hr] at hresult
    rw [recovering_refused hr rfl, recovering_refused hresult (View.refused?_refusal e)]
    exact ⟨rfl, by rw [View.synchronize_eq, hview], by rw [hnotes]⟩

theorem Agree.recovering (h : Agree n p q) : Agree n (recovering p) (recovering q) :=
  ⟨.recovering (fun _ => trivial) h.built, fun s hs => (h.shows s hs).recovering⟩

end

/-- Recovery depends on nothing but how the parser inside ends. -/
theorem recovering_congr {α : Type} {p q : ListParser α} {s : State} (h : p s = q s) :
    recovering p s = recovering q s := by
  simp only [recovering, h]

/-! ## At the end of the input -/

section
variable {σ ε α β : Type} {p : Parser σ ε α} {f : α → Parser σ ε β} {s : σ}

/-- A parser that reads and notes nothing goes over to what follows. -/
theorem bind_silent {a : α} (h : p s = ⟨.ok a, s, .none⟩) : (p >>= f) s = f a s := by
  rw [bind_ok (by rw [h]), h]
  rfl

theorem map_state (g : α → β) : ((g <$> p) s).state = (p s).state := by
  change ((p >>= fun a => pure (g a)) s).state = _
  cases hr : (p s).result with
  | error e => rw [bind_error hr]
  | ok a => rw [bind_ok hr]; rfl

variable [Reader σ ε]

/-- A round that finds an item, if the rounds behind it end. -/
theorem many_cons {p : Parser σ ε (Option α)} {s' : σ} {a : α} {notes : Notes} {bound : Nat}
    {as : List α} (h : p s = ⟨.ok (some a), s', notes⟩)
    (hrest : (many p bound s').result = .ok as) :
    many p (bound + 1) s =
      ⟨.ok (a :: as), (many p bound s').state, notes ++ (many p bound s').notes⟩ := by
  change (p >>= _) s = _
  rw [bind_ok (congrArg Reply.result h), h]
  change Reply.mk (((a :: ·) <$> many p bound) s').result (((a :: ·) <$> many p bound) s').state
    (notes ++ (((a :: ·) <$> many p bound) s').notes) = _
  rw [map_ok _ hrest]

variable [View σ]

/-- A reader that needs no room above the number of tokens has no outcome for a bound that is used
up. -/
theorem exhausted_eq (h : spare σ = 0) (p : Parser σ ε α) : exhausted p = p := by
  simp only [exhausted, View.boundReached_eq h]

/-- A repetition that finds nothing ends at once. It needs no round for this, unless the reader
minds that the bound is used up. -/
theorem many_silent {p : Parser σ ε (Option α)} (h : p s = ⟨.ok none, s, .none⟩) {bound : Nat}
    (hbound : spare σ ≤ bound) : many p bound s = ⟨.ok [], s, .none⟩ := by
  cases bound with
  | zero =>
    rw [many, exhausted_eq (Nat.le_zero.1 hbound)]
    rfl
  | succ bound => exact bind_silent h

/-- With no tokens left, a reader takes none. -/
theorem accept_view_nil (hs : (view s).rest = []) (kinds : List TokenKind) :
    accept kinds s = ⟨.ok none, s, .none⟩ := by
  have htake : Reader.take? kinds s = none := by
    simpa [State.take?, hs] using View.take?_eq kinds s
  simp only [accept, htake]

/-- At the end of the input the parser finds that an expression is missing. -/
def Refuses (p : Parser σ ε α) : Prop :=
  ∀ s : σ, (view s).rest = [] → p s = unexpected "Expect expression." s

/-- What would come later does not matter to a parser that refuses. -/
theorem Refuses.bind (h : Refuses p) : Refuses (p >>= f) :=
  fun s hs => by rw [bind_error (by rw [h s hs]; rfl), h s hs]; rfl

/-- A token that may be missing is missing at the end of the input. -/
theorem Refuses.bind_accept {kinds : List TokenKind} {f : Option Token → Parser σ ε β}
    (h : Refuses (f none)) : Refuses (accept kinds >>= f) :=
  fun s hs => by rw [bind_silent (accept_view_nil hs kinds), h s hs]

/-- At the end of the input, parsers that refuse to go on do the same. -/
theorem Refuses.shows {p : Parser σ ε α} {q : ListParser α} (hp : Refuses p) (hq : Refuses q)
    (s : σ) (hs : (view s).rest.length ≤ 0) : (p s).Shows (q (view s)) := by
  have hnil := List.eq_nil_of_length_eq_zero (Nat.le_zero.1 hs)
  have hunexpected : Agree 0 (unexpected "Expect expression." : Parser σ ε α)
      (unexpected "Expect expression.") := .unexpected _
  rw [hp s hnil, hq (view s) hnil]
  exact hunexpected.shows s hs

/-- The end of the input starts no expression. -/
theorem primary_refuses (inner : Parser σ ε Expr) : Refuses (primary inner) := by
  intro s hs
  have heof : (Reader.current s).kind = .eof := by
    simp [View.current_eq, State.current, hs, (view s).stop_kind]
  have hpeek : (peek : Parser σ ε Token) s = ⟨.ok (Reader.current s), s, .none⟩ := rfl
  change (peek >>= _) s = _
  rw [bind_silent hpeek]
  simp only [heof]

theorem unary_refuses {bound : Nat} (hbound : spare σ ≤ bound) (inner : Parser σ ε Expr) :
    Refuses (unary bound inner) := by
  intro s hs
  change (many _ _ >>= _) s = _
  rw [bind_silent (many_silent (accept_view_nil hs _) hbound)]
  exact (primary_refuses inner).bind.bind s hs

/-- An expression is missing at the end of the input, whatever the bound, because the first thing
that every parser for expressions asks for is an operand. -/
theorem expression_refuses {bound : Nat} (hbound : spare σ ≤ bound) :
    Refuses (expression bound : Parser σ ε Expr) := by
  cases bound with
  | zero =>
    rw [expression, exhausted_eq (Nat.le_zero.1 hbound)]
    exact fun _ _ => rfl
  | succ bound =>
    -- The operand on the left comes first on every level.
    have hunary := unary_refuses hbound (expression bound)
    exact hunary.bind.bind.bind.bind.bind.bind.bind

/-- With no token to choose a statement by, an expression is asked for. -/
theorem statement_refuses {bound : Nat} (hbound : spare σ ≤ bound) :
    Refuses (statement bound : Parser σ ε Stmt) := by
  cases bound with
  | zero =>
    rw [statement, exhausted_eq (Nat.le_zero.1 hbound)]
    exact fun _ _ => rfl
  | succ bound =>
    rw [statement]
    exact .bind_accept (.bind (expression_refuses hbound))

/-- At the end of the input, a declaration is given up at once. -/
theorem declaration_refuses {bound : Nat} (hbound : spare σ ≤ bound) :
    ∃ p : Parser σ ε Stmt, Refuses p ∧ declaration bound = recovering p := by
  cases bound with
  | zero =>
    rw [declaration, exhausted_eq (Nat.le_zero.1 hbound)]
    exact ⟨_, fun _ _ => rfl, rfl⟩
  | succ bound =>
    rw [declaration]
    exact ⟨_, .bind_accept (.bind_accept (.bind (expression_refuses hbound))), rfl⟩

end

section
variable {β : Type} {s : State}

theorem peek_bind (f : Token → ListParser β) (s : State) : (peek >>= f) s = f s.current s :=
  bind_silent (p := peek) rfl

theorem inFunction_bind (f : Bool → ListParser β) (s : State) :
    (inFunction >>= f) s = f s.inFunction s :=
  bind_silent (p := inFunction) rfl

theorem atEnd_bind (f : Bool → ListParser β) (s : State) :
    (atEnd >>= f) s = f s.rest.isEmpty s :=
  bind_silent (p := atEnd) rfl

theorem check_bind (kind : TokenKind) (f : Bool → ListParser β) (s : State) :
    (check kind >>= f) s = f (s.rest.head?.any fun t => t.kind = kind) s :=
  bind_silent (p := check kind) rfl

theorem atEnd_nil (hs : s.rest = []) : atEnd s = ⟨.ok true, s, .none⟩ := by
  simp [atEnd, hs]

theorem atEnd_of_ne_nil (hs : s.rest ≠ []) : atEnd s = ⟨.ok false, s, .none⟩ := by
  simp [atEnd, hs]

end

/-! ## Lists -/

section
variable {σ ε α : Type} [Reader σ ε] [View σ] {n : Nat}

/-- The parser finds nothing more at the end of the input, and takes a token for all that it
finds. -/
structure Repeats (p : ListParser (Option α)) : Prop where
  built : Built (fun _ => True) p
  silent {s : State} : s.rest = [] → p s = ⟨.ok none, s, .none⟩
  length_lt {s : State} {a : α} : (p s).result = .ok (some a) →
    (p s).state.rest.length < s.rest.length

theorem Repeats.accept (kinds : List TokenKind) : Repeats (accept kinds) where
  built := .accept fun _ _ => trivial
  silent hs := accept_nil hs kinds
  length_lt := length_accept_lt

/-- The usual shape of a round: a token that starts an item, and then the item. -/
theorem Repeats.accept_bind {kinds : List TokenKind} {f : Token → ListParser (Option α)}
    (hf : ∀ t, Built (fun _ => True) (f t)) :
    Repeats (Parser.accept kinds >>= fun
      | none => pure none
      | some t => f t) where
  built := by
    refine .bind (.accept fun _ _ => trivial) fun o => ?_
    cases o with
    | none => exact .pure none
    | some t => exact hf t
  silent hs := by
    rw [bind_silent (accept_nil hs kinds)]
    rfl
  length_lt {s a} hok := by
    obtain ⟨o, ho⟩ := exists_ok_of_bind hok
    rw [bind_ok ho] at hok ⊢
    cases o with
    | none => cases hok
    | some t => exact Nat.lt_of_le_of_lt ((hf t).rest_length_le _) (length_accept_lt ho)

/-- Each round takes a token, so a bound that covers the tokens left is not used up before the last
of them is read. -/
theorem Agree.many {p : Parser σ ε (Option α)} {q : ListParser (Option α)} (hq : Repeats q)
    (hpq : Agree n p q) {b c : Nat} (hb : n + spare σ ≤ b) (hc : n ≤ c) :
    Agree n (many p b) (many q c) := by
  refine ⟨hq.built.many c, ?_⟩
  induction n generalizing b c with
  | zero =>
    intro s hs
    -- No token is left: nothing is found on the list, and the reader needs no round either, because
    -- its bound is used up only below `spare`.
    have hnil := hq.silent (List.eq_nil_of_length_eq_zero (Nat.le_zero.1 hs))
    rw [many_silent hnil (Nat.zero_le c)]
    cases b with
    | zero =>
      rw [Parser.many, exhausted_eq (by omega)]
      exact ⟨rfl, rfl, rfl⟩
    | succ b =>
      have hround := hpq.shows s hs
      rw [hnil] at hround
      change ((p >>= _) s).Shows _
      rw [bind_ok hround.result_eq]
      exact ⟨rfl, hround.view_eq, by rw [hround.notes_eq]; rfl⟩
  | succ n ih =>
    obtain ⟨b, rfl⟩ : ∃ b', b = b' + 1 := ⟨b - 1, by omega⟩
    obtain ⟨c, rfl⟩ : ∃ c', c = c' + 1 := ⟨c - 1, by omega⟩
    intro s hs
    have hround := hpq.shows s hs
    change ((p >>= _) s).Shows ((q >>= _) (view s))
    refine hround.bind fun o ho => ?_
    cases o with
    | none => exact ⟨rfl, hround.view_eq, rfl⟩
    | some a =>
      -- One token less is left, for which bounds that are smaller by one suffice.
      have hlt := hq.length_lt ho
      have hrest : Agree n (Parser.many p b) (Parser.many q c) :=
        ⟨hq.built.many c, ih (hpq.mono (Nat.le_succ n)) (by omega) (by omega)⟩
      rw [← hround.view_eq] at hlt ⊢
      exact hrest.map.shows _ (by omega)

/-- At the end of the input no comma follows, so that the list ends with this item for every bound.
-/
theorem commaList_view_nil {item : List α → Parser σ ε α} {before : List α} {s : σ}
    (hnil : (view (item before s).state).rest = []) {bound : Nat} (hbound : spare σ ≤ bound) :
    commaList item bound before s = (item before >>= fun a => pure (before ++ [a])) s := by
  cases bound with
  | zero => rw [commaList, exhausted_eq (Nat.le_zero.1 hbound)]
  | succ bound =>
    change (item before >>= _) s = _
    cases hr : (item before s).result with
    | error e => rw [bind_error hr, bind_error hr]
    | ok a => rw [bind_ok hr, bind_ok hr, bind_silent (accept_view_nil hnil _)]

/-- The first item may take no token at all; from then on every item stands behind a comma. -/
theorem Agree.commaList {item : List α → Parser σ ε α} {item' : List α → ListParser α}
    (hitem : ∀ before, Agree n (item before) (item' before)) {b c : Nat} (hb : n + spare σ ≤ b)
    (hc : n ≤ c) (before : List α) :
    Agree n (commaList item b before) (commaList item' c before) := by
  induction n generalizing b c before with
  | zero =>
    refine ⟨.commaList (fun before => (hitem before).built) trivial c before, fun s hs => ?_⟩
    -- The first item is read without a comma in front of it, so that this case is not vacuous; but
    -- no token is left behind it.
    have hfirst := (hitem before).shows s hs
    have hnil : (view (item before s).state).rest = [] := by
      rw [hfirst.view_eq]
      simpa [Nat.le_zero.1 hs] using (hitem before).built.rest_length_le (view s)
    have hnil' : (view (item' before (view s)).state).rest = [] := by
      rw [hfirst.view_eq] at hnil
      exact hnil
    rw [commaList_view_nil hnil (by omega), commaList_view_nil hnil' (Nat.zero_le c)]
    exact ((hitem before).bind fun a => .pure _).shows s hs
  | succ n ih =>
    obtain ⟨b, rfl⟩ : ∃ b', b = b' + 1 := ⟨b - 1, by omega⟩
    obtain ⟨c, rfl⟩ : ∃ c', c = c' + 1 := ⟨c - 1, by omega⟩
    refine (hitem before).bind fun a => .acceptThen (.pure _) fun _ => ?_
    exact ih (fun before => (hitem before).mono (Nat.le_succ n)) (by omega) (by omega) _

theorem Agree.items {item : List α → Parser σ ε α} {item' : List α → ListParser α}
    (hitem : ∀ before, Agree n (item before) (item' before)) {b c : Nat} (hb : n + spare σ ≤ b)
    (hc : n ≤ c) : Agree n (items b item) (items c item') := by
  refine (Agree.check .rightParen).bind fun found => ?_
  cases found with
  | true => exact .pure []
  | false => exact .commaList hitem hb hc []

end

/-! ## Expressions -/

section
variable {σ ε : Type} [Reader σ ε] [View σ] {n b c : Nat} {inner : Parser σ ε Expr}
  {inner' : ListParser Expr}

/-- The kind of the next token is the kind to accept it by. -/
theorem accept_current {s : State} (hs : s.rest ≠ []) :
    (accept [s.current.kind] s).result = .ok (some s.current) := by
  obtain ⟨t, rest, ht⟩ := List.exists_cons_of_ne_nil hs
  have hcurrent : s.current = t := by simp [State.current, ht]
  rw [hcurrent, accept_of_mem ht List.mem_cons_self]

/-- An expression in parentheses stands behind a parenthesis; all other primary expressions are
single tokens. -/
theorem primary_agree (hinner : Agree n inner inner') :
    Agree (n + 1) (primary inner) (primary inner') := by
  refine ⟨primary_built (fun _ _ => trivial) hinner.built, fun s hs => ?_⟩
  have hpeek : (peek s).Shows (peek (view s)) := Agree.peek.shows s hs
  refine hpeek.bind fun t ht => ?_
  simp only [peek]
  have hliteral : ∀ value, Agree (n + 1) (primary.literalToken t value : Parser σ ε Expr)
      (primary.literalToken t value) := fun value => (Agree.accept _).bind fun _ => .pure _
  by_cases hparen : t.kind = .leftParen
  · -- The parenthesis is read, so that one token less is left for what stands inside.
    obtain rfl : (view s).current = t := Except.ok.inj ht
    have hne : (view s).rest ≠ [] := by
      intro hnil
      simp [State.current, hnil, (view s).stop_kind] at hparen
    have hlt := length_accept_lt (accept_current hne)
    have haccept : (accept [TokenKind.leftParen] s).Shows (accept [TokenKind.leftParen] (view s)) :=
      (Agree.accept _).shows s hs
    simp only [hparen] at hlt ⊢
    refine haccept.bind fun _ _ => ?_
    rw [← haccept.view_eq] at hlt ⊢
    exact (hinner.bind fun _ => (Agree.expect _ _).bind fun _ => .pure _).shows _ (by omega)
  · refine (?_ : Agree (n + 1) _ _).shows s hs
    split
    case h_6 => exact (Agree.accept _).bind fun _ => .pure _
    case h_7 => contradiction
    case h_8 => exact .unexpected _
    all_goals exact hliteral _

theorem argument_agree (hinner : Agree n inner inner') (before : List Expr) :
    Agree n (argument inner before) (argument inner' before) := by
  unfold argument
  split
  · exact Agree.peek.bind fun t => (Agree.report rfl).bind fun _ => hinner
  · exact hinner

/-- The first argument stands behind the parenthesis, and every other one behind a comma as well. -/
theorem arguments_agree (hinner : Agree n inner inner') (hb : n + spare σ ≤ b) (hc : n ≤ c) :
    Agree (n + 1) (arguments b inner) (arguments c inner') := by
  refine .acceptThen (.pure none) fun _ => ?_
  refine (Agree.items (argument_agree hinner) hb hc).bind fun args => ?_
  exact (Agree.expect _ _).bind fun _ => .pure _

/-- Every call takes a parenthesis at least. -/
theorem arguments_repeats (hinner : Built (fun _ => True) inner') (bound : Nat) :
    Repeats (arguments bound inner') :=
  .accept_bind fun _ => .bind (.items (argument_built hinner) trivial _) fun _ =>
    .bind (.expect _ trivial) fun _ => .pure _

/-- The calls behind a primary expression. Their number is limited by that of the tokens. -/
theorem call_agree (hinner : Agree n inner inner') (hb : n + 1 + spare σ ≤ b) (hc : n < c) :
    Agree (n + 1) (call b inner) (call c inner') := by
  refine (primary_agree hinner).bind fun _ => Agree.bind ?_ fun _ => .pure _
  exact .many (arguments_repeats hinner.built c)
    (arguments_agree hinner (by omega) (Nat.le_of_lt hc)) hb hc

theorem unary_agree (hinner : Agree n inner inner') (hb : n + 1 + spare σ ≤ b) (hc : n < c) :
    Agree (n + 1) (unary b inner) (unary c inner') :=
  (Agree.many (.accept _) (.accept _) hb hc).bind fun _ =>
    (call_agree hinner hb hc).bind fun _ => .pure _

theorem operation_repeats {kinds : List TokenKind} {operand : ListParser Expr}
    (h : Built (fun _ => True) operand) : Repeats (operation kinds operand) :=
  .accept_bind fun _ => .bind h fun _ => .pure _

/-- A level of precedence keeps agreement. Its operands on the right stand behind operators, while
the one on the left stands in front of all the tokens. -/
theorem Level.expression_agree (level : Level) {operand : Parser σ ε Expr}
    {operand' : ListParser Expr} (h : Agree (n + 1) operand operand')
    (hb : n + 1 + spare σ ≤ b) (hc : n < c) :
    Agree (n + 1) (level.expression b operand) (level.expression c operand') := by
  have hoperation : Agree (n + 1) (operation level.operators operand)
      (operation level.operators operand') :=
    .acceptThen (.pure none) fun _ => (h.mono (Nat.le_succ n)).bind fun _ => .pure _
  refine h.bind fun _ => Agree.bind ?_ fun _ => .pure _
  exact .many (operation_repeats h.built) hoperation hb hc

/-- All levels of precedence, by induction along the ladder. -/
theorem operations_agree (hinner : Agree n inner inner') (hb : n + 1 + spare σ ≤ b) (hc : n < c) :
    Agree (n + 1) (operations b inner) (operations c inner') := by
  unfold operations
  induction Level.ladder with
  | nil => exact unary_agree hinner hb hc
  | cons level levels ih => exact level.expression_agree ih hb hc

/-- One step of the induction for expressions. Every expression inside stands behind a token, of an
operator, a parenthesis or an equals sign, so that agreement in front of `n` tokens is enough. -/
theorem assignment_agree (hinner : Agree n inner inner') (hb : n + 1 + spare σ ≤ b) (hc : n < c) :
    Agree (n + 1) (assignment b inner) (assignment c inner') := by
  refine (operations_agree hinner hb hc).bind fun target =>
    .acceptThen (.pure target) fun equals => ?_
  -- The value is an expression inside; what is made of it is the same on both sides.
  refine hinner.bind fun value => ?_
  split
  · exact .pure _
  · exact (Agree.report rfl).bind fun _ => .pure _

/-- In front of at most `n` tokens, a bound is not used up if there is room for `n` nested
expressions and for what the reader needs above that. -/
theorem expression_agree (hb : n + spare σ ≤ b) (hc : n ≤ c) :
    Agree n (expression b : Parser σ ε Expr) (expression c) := by
  induction n generalizing b c with
  | zero =>
    exact ⟨(expression_built c).any,
      (expression_refuses (by omega)).shows (expression_refuses (Nat.zero_le c))⟩
  | succ n ih =>
    obtain ⟨b, rfl⟩ : ∃ b', b = b' + 1 := ⟨b - 1, by omega⟩
    obtain ⟨c, rfl⟩ : ∃ c', c = c' + 1 := ⟨c - 1, by omega⟩
    exact assignment_agree (ih (by omega) (by omega)) hb hc

end

/-! ## Statements -/

section
variable {σ ε : Type} [Reader σ ε] [View σ] {n b c : Nat} {E : Parser σ ε Expr}
  {E' : ListParser Expr} {S : Parser σ ε Stmt} {S' : ListParser Stmt}
  {D : Parser σ ε (Option Stmt)} {D' : ListParser (Option Stmt)}

theorem expressionStatement_agree (h : Agree n E E') :
    Agree n (expressionStatement E) (expressionStatement E') :=
  h.bind fun _ => (Agree.expect _ _).bind fun _ => .pure _

theorem printStatement_agree (h : Agree n E E') :
    Agree n (printStatement E) (printStatement E') :=
  h.bind fun _ => (Agree.expect _ _).bind fun _ => .pure _

/-- A variable is declared with an initial value or without one. -/
theorem varDeclaration_agree (h : Agree n E E') :
    Agree n (varDeclaration E) (varDeclaration E') := by
  -- The end of the declaration is shared by the two cases.
  have hend : ∀ (name : Token) (e : Option Expr), Agree n
      (expect .semicolon "Expect ';' after variable declaration." >>= fun _ =>
        pure (Stmt.var name e) : Parser σ ε Stmt)
      (expect .semicolon "Expect ';' after variable declaration." >>= fun _ =>
        pure (Stmt.var name e)) := fun _ _ => (Agree.expect _ _).bind fun _ => .pure _
  refine (Agree.expect _ _).bind fun name => (Agree.accept _).bind fun o => ?_
  cases o with
  | none => exact hend name none
  | some equals => exact h.map.bind (hend name)

theorem clause_agree (h : Agree n E E') (stop : TokenKind) :
    Agree n (clause stop E) (clause stop E') := by
  refine (Agree.check stop).bind fun found => ?_
  cases found with
  | true => exact .pure none
  | false => exact h.map

/-- Whether the statement stands in a function is asked of both readers, with the same answer. -/
theorem returnStatement_agree (h : Agree n E E') (keyword : Token) :
    Agree n (returnStatement E keyword) (returnStatement E' keyword) := by
  -- The report comes first; the rest of the statement is the same with and without it.
  have hclause : Agree n
      (clause .semicolon E >>= fun value => expect .semicolon "Expect ';' after return value." >>=
        fun _ => pure (Stmt.ret keyword value))
      (clause .semicolon E' >>= fun value => expect .semicolon "Expect ';' after return value." >>=
        fun _ => pure (Stmt.ret keyword value)) :=
    (clause_agree h .semicolon).bind fun _ => (Agree.expect _ _).bind fun _ => .pure _
  refine Agree.inFunction.bind fun within => ?_
  cases within with
  | true => exact hclause
  | false => exact (Agree.report rfl).bind fun _ => hclause

theorem ifStatement_agree (h : Agree n E E') (hS : Agree n S S') :
    Agree n (ifStatement E S) (ifStatement E' S') := by
  refine (Agree.expect _ _).bind fun _ => h.bind fun cond => ?_
  refine (Agree.expect _ _).bind fun _ => hS.bind fun thenBranch => ?_
  refine (Agree.accept _).bind fun o => ?_
  cases o with
  | none => exact .pure _
  | some word => exact hS.map.bind fun _ => .pure _

theorem whileStatement_agree (h : Agree n E E') (hS : Agree n S S') :
    Agree n (whileStatement E S) (whileStatement E' S') :=
  (Agree.expect _ _).bind fun _ => h.bind fun _ =>
    (Agree.expect _ _).bind fun _ => hS.bind fun _ => .pure _

/-- The first clause of a for statement is empty, a declaration or an expression. -/
theorem initializer_agree (h : Agree n E E') : Agree n (initializer E) (initializer E') := by
  refine (Agree.accept _).bind fun o => ?_
  cases o with
  | none => exact (expressionStatement_agree h).map
  | some t =>
    dsimp only
    split
    · exact .pure none
    · exact (varDeclaration_agree h).map

theorem forStatement_agree (h : Agree n E E') (hS : Agree n S S') :
    Agree n (forStatement E S) (forStatement E' S') :=
  (Agree.expect _ _).bind fun _ => (initializer_agree h).bind fun _ =>
    (clause_agree h _).bind fun _ => (Agree.expect _ _).bind fun _ =>
    (clause_agree h _).bind fun _ => (Agree.expect _ _).bind fun _ => hS.bind fun _ => .pure _

/-- The declarations of a block end at the end of the input or in front of a brace; in front of
anything else one more declaration is read, which takes a token. -/
theorem declarations_next_repeats (hD : Built (fun _ => True) D')
    (hlt : ∀ {s : State}, s.rest ≠ [] → (D' s).state.rest.length < s.rest.length) :
    Repeats (declarations.next D') where
  built := declarations_next_built hD
  silent hs := by
    change (atEnd >>= _) _ = _
    rw [bind_silent (atEnd_nil hs)]
    rfl
  length_lt {s a} hok := by
    change ((atEnd >>= _) s).result = _ at hok
    change ((atEnd >>= _) s).state.rest.length < _
    by_cases hs : s.rest = []
    · rw [bind_silent (atEnd_nil hs)] at hok
      cases hok
    · rw [bind_silent (atEnd_of_ne_nil hs)] at hok ⊢
      change ((check .rightBrace >>= _) s).result = _ at hok
      rw [check_bind] at hok ⊢
      cases hfound : s.rest.head?.any fun t => decide (t.kind = .rightBrace) with
      | true =>
        rw [hfound] at hok
        cases hok
      | false => simpa [hfound, map_state] using hlt hs

/-- A list of declarations ends before its bound is used up, because every declaration takes a
token. -/
theorem declarations_agree
    (hlt : ∀ {s : State}, s.rest ≠ [] → (D' s).state.rest.length < s.rest.length)
    (h : Agree n D D') (hb : n + spare σ ≤ b) (hc : n ≤ c) :
    Agree n (declarations b D) (declarations c D') := by
  refine (Agree.many (declarations_next_repeats h.built hlt) ?_ hb hc).bind fun _ => .pure _
  refine Agree.atEnd.bind fun ended => ?_
  cases ended with
  | true => exact .pure none
  | false =>
    refine (Agree.check .rightBrace).bind fun found => ?_
    cases found with
    | true => exact .pure none
    | false => exact h.map

theorem block_agree
    (hlt : ∀ {s : State}, s.rest ≠ [] → (D' s).state.rest.length < s.rest.length)
    (h : Agree n D D') (hb : n + spare σ ≤ b) (hc : n ≤ c) :
    Agree n (block b D) (block c D') :=
  (declarations_agree hlt h hb hc).bind fun _ => (Agree.expect _ _).bind fun _ => .pure _

/-- The name of a parameter is compared with the names before it, and is at most reported. -/
theorem parameter_agree (before : List Token) :
    Agree n (parameter before : Parser σ ε Token) (parameter before) := by
  have hname : Agree n
      (expect .identifier "Expect parameter name." >>= fun name => do
        if before.any fun p => p.lexeme == name.lexeme then
          report (.duplicateParameter name)
        pure name : Parser σ ε Token)
      (expect .identifier "Expect parameter name." >>= fun name => do
        if before.any fun p => p.lexeme == name.lexeme then
          report (.duplicateParameter name)
        pure name) := by
    refine (Agree.expect _ _).bind fun name => ?_
    split
    · exact (Agree.report rfl).bind fun _ => .pure name
    · exact .pure name
  unfold parameter
  split
  · exact Agree.peek.bind fun t => (Agree.report rfl).bind fun _ => hname
  · exact hname

theorem funDeclaration_agree
    (hlt : ∀ {s : State}, s.rest ≠ [] → (D' s).state.rest.length < s.rest.length)
    (h : Agree n D D') (hb : n + spare σ ≤ b) (hc : n ≤ c) :
    Agree n (funDeclaration b D) (funDeclaration c D') :=
  (Agree.expect _ _).bind fun _ => (Agree.expect _ _).bind fun _ =>
    (Agree.items parameter_agree hb hc).bind fun _ =>
    (Agree.expect _ _).bind fun _ => (Agree.expect _ _).bind fun _ =>
    (block_agree hlt h hb hc).withinFunction.bind fun _ => .pure _

/-- One step of the induction for statements. The first token decides what statement it is; the
statements and declarations inside stand behind it, so that agreement in front of `n` tokens is
enough for them. -/
theorem statementOf_agree (hS : Agree n S S')
    (hlt : ∀ {s : State}, s.rest ≠ [] → (D' s).state.rest.length < s.rest.length)
    (h : Agree n D D') (hb : n + 1 + spare σ ≤ b) (hc : n < c) :
    Agree (n + 1) (statementOf b S D) (statementOf c S' D') := by
  have hfirst : Agree (n + 1) (expression b : Parser σ ε Expr) (expression c) :=
    expression_agree hb hc
  have hE := hfirst.mono (Nat.le_succ n)
  -- Only the expression of an expression statement stands in front of all the tokens.
  refine .acceptThen (expressionStatement_agree hfirst) fun t => ?_
  dsimp only
  split
  · exact ifStatement_agree hE hS
  · exact forStatement_agree hE hS
  · exact whileStatement_agree hE hS
  · exact printStatement_agree hE
  · exact returnStatement_agree hE t
  · exact (block_agree hlt h (by omega) (Nat.le_of_lt hc)).map

/-- One step of the induction for declarations, which recover. -/
theorem declarationOf_agree (hS : Agree n S S')
    (hlt : ∀ {s : State}, s.rest ≠ [] → (D' s).state.rest.length < s.rest.length)
    (h : Agree n D D') (hb : n + 1 + spare σ ≤ b) (hc : n < c) :
    Agree (n + 1) (declarationOf b S D) (declarationOf c S' D') := by
  refine .recovering (.acceptThen (statementOf_agree hS hlt h hb hc) fun t => ?_)
  dsimp only
  split
  · exact funDeclaration_agree hlt h (by omega) (Nat.le_of_lt hc)
  · exact varDeclaration_agree ((expression_agree hb hc).mono (Nat.le_succ n))

/-- In front of at most `n` tokens, a bound is not used up if there is room for `n` nested
statements and for what the reader needs above that. -/
theorem statement_agree (hb : n + spare σ ≤ b) (hc : n ≤ c) :
    Agree n (statement b : Parser σ ε Stmt) (statement c) ∧
      Agree n (declaration b : Parser σ ε (Option Stmt)) (declaration c) := by
  induction n generalizing b c with
  | zero =>
    -- With no token left, both find that an expression is missing, whatever their bounds are.
    obtain ⟨p, hp, hdeclaration⟩ : ∃ p : Parser σ ε Stmt,
        Refuses p ∧ declaration b = recovering p :=
      declaration_refuses (by omega)
    obtain ⟨q, hq, hdeclaration'⟩ : ∃ q : ListParser Stmt,
        Refuses q ∧ declaration c = recovering q :=
      declaration_refuses (Nat.zero_le c)
    obtain ⟨hbuilt, hbuilt'⟩ : Built (fun _ => True) (statement c : ListParser Stmt) ∧
      Built (fun _ => True) (declaration c : ListParser (Option Stmt)) := statement_built c
    refine ⟨⟨hbuilt, ?_⟩, hbuilt', fun s hs => ?_⟩
    · exact (statement_refuses (by omega)).shows (statement_refuses (Nat.zero_le c))
    · rw [hdeclaration, hdeclaration']
      exact (hp.shows hq s hs).recovering
  | succ n ih =>
    obtain ⟨b, rfl⟩ : ∃ b', b = b' + 1 := ⟨b - 1, by omega⟩
    obtain ⟨c, rfl⟩ : ∃ c', c = c' + 1 := ⟨c - 1, by omega⟩
    obtain ⟨hS, hD⟩ := ih (b := b) (c := c) (by omega) (by omega)
    have hlt := fun {s} => declaration_length_lt c (s := s)
    rw [statement, statement, declaration, declaration]
    exact ⟨statementOf_agree hS hlt hD hb hc, declarationOf_agree hS hlt hD hb hc⟩

end

/-! ## Programs -/

theorem program_next_nil {s : State} (hs : s.rest = []) (bound : Nat) :
    program.next bound s = ⟨.ok none, s, .none⟩ := by
  change (atEnd >>= _) s = _
  rw [bind_silent (atEnd_nil hs)]
  rfl

theorem program_next_cons {s : State} (hs : s.rest ≠ []) (bound : Nat) :
    program.next bound s = (some <$> declaration bound) s := by
  change (atEnd >>= _) s = _
  rw [bind_silent (atEnd_of_ne_nil hs)]
  rfl

/-- A program ends at the end of the input only, because every declaration takes a token. -/
theorem program_next_repeats (bound : Nat) :
    Repeats (program.next bound : ListParser (Option (Option Stmt))) where
  built := program_next_built bound
  silent hs := program_next_nil hs bound
  length_lt {s o} hok := by
    by_cases hs : s.rest = []
    · rw [program_next_nil hs] at hok
      cases hok
    · rw [program_next_cons hs, map_state]
      exact declaration_length_lt bound hs

section
variable {σ ε : Type} [Reader σ ε] [View σ] {n b c : Nat}

theorem program_next_agree (hb : n + spare σ ≤ b) (hc : n ≤ c) :
    Agree n (program.next b : Parser σ ε (Option (Option Stmt))) (program.next c) := by
  refine Agree.atEnd.bind fun ended => ?_
  cases ended with
  | true => exact .pure none
  | false => exact (statement_agree hb hc).2.map

/-- In front of at most `n` tokens, the parser for programs does the same for every bound with room
for `n` declarations and for what the reader needs above that. -/
theorem program_agree (hb : n + spare σ ≤ b) (hc : n ≤ c) :
    Agree n (program b : Parser σ ε (List Stmt)) (program c) :=
  (Agree.many (program_next_repeats c) (program_next_agree hb hc) hb hc).map

end

end Treewalk.Parser
