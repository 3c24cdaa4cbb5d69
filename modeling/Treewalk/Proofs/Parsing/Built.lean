import Treewalk.Proofs.Parsing.Clean

/-!
# Parsers built from the basic ones

Every parser of the library is built from a few basic ones. `Parser.Built` says so, and says on the
way of what kinds the tokens are that the parser may take. What holds of every parser so built is
proved once, by induction on how it is built:

* `Built.forward`: a parser only moves forward, and leaves all else in its state as it was;
* `Built.apply_before`: a parser that leaves tokens unread does not depend on what stands behind
  them;
* `Built.faithful`: the declarations that were abandoned are those whose error was noted.
-/

namespace Treewalk

/-- What the grammar wanted elsewhere, if the error is that a token was not expected. -/
def SyntaxError.unexpected? : SyntaxError → Option Unexpected
  | unexpectedToken u => some u
  | _ => none

namespace Parser

namespace Notes

@[simp] theorem errors_append (a b : Notes) : (a ++ b).errors = a.errors ++ b.errors := rfl

@[simp] theorem abandoned_append (a b : Notes) :
    (a ++ b).abandoned = a.abandoned ++ b.abandoned := rfl

@[simp] theorem append_none (a : Notes) : a ++ none = a := by
  change Notes.mk _ _ = a
  simp [none]

end Notes

section
variable {σ ε α β : Type} {p : Parser σ ε α} {f : α → Parser σ ε β} {s : σ}

/-- If the first parser has a result, the second one goes on where it stopped, and the notes of both
are kept in order. -/
theorem bind_ok {a : α} (h : (p s).result = .ok a) :
    (p >>= f) s = ⟨(f a (p s).state).result, (f a (p s).state).state,
      (p s).notes ++ (f a (p s).state).notes⟩ := by
  simp only [bind, Parser.bind]
  generalize p s = reply at h
  obtain ⟨_ | _, state, notes⟩ := reply <;> simp_all

/-- If the first parser has no result, the sequence ends there, and the second parser notes nothing.
-/
theorem bind_error {e : ε} (h : (p s).result = .error e) :
    (p >>= f) s = ⟨.error e, (p s).state, (p s).notes⟩ := by
  simp only [bind, Parser.bind]
  generalize p s = reply at h
  obtain ⟨_ | _, state, notes⟩ := reply <;> simp_all

theorem map_ok {a : α} (g : α → β) (h : (p s).result = .ok a) :
    (g <$> p) s = ⟨.ok (g a), (p s).state, (p s).notes⟩ := by
  change (p >>= fun a => pure (g a)) s = _
  rw [bind_ok h]
  simp [pure, Parser.pure]

theorem exists_ok_of_bind {b : β} (h : ((p >>= f) s).result = .ok b) :
    ∃ a, (p s).result = .ok a := by
  cases hp : (p s).result with
  | error e => simp [bind_error hp] at h
  | ok a => exact ⟨a, rfl⟩

variable [Reader σ ε]

/-- A declaration with a result is passed on as it is. -/
theorem recovering_ok {a : α} (h : (p s).result = .ok a) :
    recovering p s = ⟨.ok (some a), (p s).state, (p s).notes⟩ := by
  simp only [recovering]
  generalize p s = reply at h
  obtain ⟨_ | _, state, notes⟩ := reply <;> simp_all

/-- A declaration without a result is abandoned: its error is noted, and reading goes on at the next
boundary between statements. -/
theorem recovering_refused {e : ε} {u : Unexpected} (h : (p s).result = .error e)
    (hu : Reader.refused? σ e = some u) :
    recovering p s = ⟨.ok none, Reader.synchronize (p s).state,
      (p s).notes ++ ⟨[.unexpectedToken u], [u]⟩⟩ := by
  simp only [recovering]
  generalize p s = reply at h
  obtain ⟨_ | _, state, notes⟩ := reply <;> simp_all

/-- An error that is not about the tokens, as is a bound that was reached, is passed on and not
recovered from. -/
theorem recovering_halted {e : ε} (h : (p s).result = .error e)
    (hnone : Reader.refused? σ e = none) :
    recovering p s = ⟨.error e, (p s).state, (p s).notes⟩ := by
  simp only [recovering]
  generalize p s = reply at h
  obtain ⟨_ | _, state, notes⟩ := reply <;> simp_all

end

/-- On lists every error is about the tokens, so that recovery always takes place. -/
theorem recovering_error {α : Type} {p : ListParser α} {s : State} {e : Unexpected}
    (h : (p s).result = .error e) :
    recovering p s = ⟨.ok none, { (p s).state with rest := synchronize (p s).state.rest },
      (p s).notes ++ ⟨[.unexpectedToken e], [e]⟩⟩ :=
  recovering_refused h rfl

/-! ## Parsers that always have a result -/

/-- The parser never ends at an unexpected token. -/
def Total {α : Type} (p : ListParser α) : Prop :=
  ∀ s, ∃ a, (p s).result = .ok a

theorem total_pure {α : Type} (a : α) : (pure a : ListParser α).Total :=
  fun _ => ⟨a, rfl⟩

/-- Taking a token or not is a result either way. -/
theorem total_accept (kinds : List TokenKind) :
    (accept kinds : ListParser (Option Token)).Total := by
  intro s
  cases hs : s.rest with
  | nil => exact ⟨none, by rw [accept_nil hs]⟩
  | cons t rest =>
    by_cases hkind : t.kind ∈ kinds
    · exact ⟨some t, by rw [accept_of_mem hs hkind]⟩
    · exact ⟨none, by rw [accept_of_not_mem hs hkind]⟩

theorem total_bind {α β : Type} {p : ListParser α} {f : α → ListParser β} (hp : p.Total)
    (hf : ∀ a, (f a).Total) : (p >>= f).Total := by
  intro s
  obtain ⟨a, ha⟩ := hp s
  obtain ⟨b, hb⟩ := hf a (p s).state
  exact ⟨b, by rw [bind_ok ha, hb]⟩

/-- A repetition of a parser that has a result has one too, whatever its bound. -/
theorem total_many {α : Type} {p : ListParser (Option α)} (hp : p.Total) (bound : Nat) :
    (many p bound).Total := by
  induction bound with
  | zero => exact total_pure []
  | succ bound ih =>
    refine total_bind hp fun o => ?_
    cases o with
    | none => exact total_pure []
    | some a => exact total_bind ih fun rest => total_pure (a :: rest)

/-- A parser that recovers has a result, because on lists every error is recovered from. -/
theorem total_recovering {α : Type} (p : ListParser α) : (recovering p).Total := by
  intro s
  cases hr : (p s).result with
  | error e => exact ⟨none, by rw [recovering_error hr]⟩
  | ok a => exact ⟨some a, by rw [recovering_ok hr]⟩

/-- A declaration always has a result, if only that it was abandoned. -/
theorem total_declaration (bound : Nat) : (declaration bound).Total := by
  cases bound with
  | zero =>
    rw [declaration, exhausted_list]
    exact total_recovering _
  | succ bound => exact total_recovering _

theorem total_program_next (bound : Nat) : (program.next bound).Total := by
  refine total_bind (fun s => ⟨_, rfl⟩) fun done => ?_
  cases done with
  | true => exact total_pure none
  | false => exact total_bind (total_declaration bound) fun o => total_pure (some o)

/-- The parser for programs has no error of its own: what is wrong with a program stands in the
notes. -/
theorem total_program (bound : Nat) : (program bound).Total :=
  total_bind (total_many (total_program_next bound) bound) fun _ => total_pure _

/-! ## Construction -/

/-- The parser is built from the basic parsers. Those that take a token take only tokens of the
kinds that `K` allows; recovery may pass over any token. -/
inductive Built {σ ε : Type} [Reader σ ε] (K : TokenKind → Prop) :
    {α : Type} → Parser σ ε α → Prop where
  | pure {α : Type} (a : α) : Built K (pure a : Parser σ ε α)
  | bind {α β : Type} {p : Parser σ ε α} {f : α → Parser σ ε β} :
      Built K p → (∀ a, Built K (f a)) → Built K (p >>= f)
  | peek : Built K peek
  | check (kind : TokenKind) : Built K (check kind)
  | atEnd : Built K atEnd
  | accept {kinds : List TokenKind} : (∀ k ∈ kinds, K k) → Built K (accept kinds)
  | unexpected {α : Type} (message : String) : Built K (unexpected message : Parser σ ε α)
  | report {e : SyntaxError} : e.unexpected? = none → Built K (report e)
  | inFunction : Built K inFunction
  | withinFunction {α : Type} {p : Parser σ ε α} : Built K p → Built K (withinFunction p)
  | exhausted {α : Type} {p : Parser σ ε α} : Built K p → Built K (exhausted p)
  | recovering {α : Type} {p : Parser σ ε α} : (∀ k, K k) → Built K p → Built K (recovering p)

namespace Built

variable {K K' : TokenKind → Prop} {α β : Type}

section
variable {σ ε : Type} [Reader σ ε]

/-- What may be taken can be widened. -/
theorem mono {p : Parser σ ε α} (h : Built K p) (hK : ∀ k, K k → K' k) : Built K' p := by
  induction h with
  | pure a => exact .pure a
  | bind _ _ ihp ihf => exact .bind ihp ihf
  | peek => exact .peek
  | check kind => exact .check kind
  | atEnd => exact .atEnd
  | accept hkinds => exact .accept fun k hk => hK k (hkinds k hk)
  | unexpected message => exact .unexpected message
  | report he => exact .report he
  | inFunction => exact .inFunction
  | withinFunction _ ih => exact .withinFunction ih
  | exhausted _ ih => exact .exhausted ih
  | recovering hall _ ih => exact .recovering (fun k => hK k (hall k)) ih

theorem map {f : α → β} {p : Parser σ ε α} (h : Built K p) : Built K (f <$> p) :=
  .bind h fun a => .pure (f a)

theorem expect {kind : TokenKind} (message : String) (hkind : K kind) :
    Built K (expect kind message : Parser σ ε Token) := by
  refine .bind (.accept fun k hk => List.mem_singleton.1 hk ▸ hkind) fun o => ?_
  cases o with
  | none => exact .unexpected message
  | some t => exact .pure t

/-- A repetition is built from what it repeats. -/
theorem many {p : Parser σ ε (Option α)} (h : Built K p) (bound : Nat) :
    Built K (many p bound) := by
  induction bound with
  -- Where the bound is used up, the parser is marked as such, which `Built` allows.
  | zero => exact .exhausted (.pure [])
  | succ bound ih =>
    refine .bind h fun o => ?_
    cases o with
    | none => exact .pure []
    | some a => exact .bind ih fun rest => .pure (a :: rest)

/-- A list takes the tokens that its items take, and commas. -/
theorem commaList {item : List α → Parser σ ε α} (hitem : ∀ before, Built K (item before))
    (hcomma : K .comma) (bound : Nat) (before : List α) :
    Built K (commaList item bound before) := by
  induction bound generalizing before with
  | zero => exact .exhausted (.bind (hitem before) fun a => .pure _)
  | succ bound ih =>
    refine .bind (hitem before) fun a => .bind (.accept (by simpa using hcomma)) fun o => ?_
    cases o with
    | none => exact .pure _
    | some comma => exact ih _

theorem items {item : List α → Parser σ ε α} (hitem : ∀ before, Built K (item before))
    (hcomma : K .comma) (bound : Nat) : Built K (items bound item) := by
  refine .bind (.check .rightParen) fun b => ?_
  cases b with
  | true => exact .pure []
  | false => exact commaList hitem hcomma bound []

end

/-! ## A parser only moves forward -/

/-- The next boundary stands behind some of the tokens: none is dropped from the middle. -/
theorem exists_boundary (t : Token) (rest : List Token) :
    ∃ ts, t :: rest = ts ++ boundary t rest := by
  induction rest generalizing t with
  | nil => exact ⟨[t], rfl⟩
  | cons u rest ih =>
    unfold boundary
    split
    · exact ⟨[t], rfl⟩
    · obtain ⟨ts, hts⟩ := ih u
      exact ⟨t :: ts, by rw [hts, List.cons_append]⟩

theorem length_boundary_le (t : Token) (rest : List Token) :
    (boundary t rest).length ≤ rest.length := by
  induction rest generalizing t with
  | nil => exact Nat.le_refl 0
  | cons u rest ih =>
    unfold boundary
    split
    · exact Nat.le_refl _
    · exact Nat.le_succ_of_le (ih u)

/-- Recovery passes over a token at least. This is why abandoning declarations comes to an end. -/
theorem length_synchronize_lt {rest : List Token} (h : rest ≠ []) :
    (synchronize rest).length < rest.length := by
  cases rest with
  | nil => exact absurd rfl h
  | cons t rest => exact Nat.lt_succ_of_le (length_boundary_le t rest)

/-- What is left after recovery is the end of what was left before. -/
theorem exists_synchronize (rest : List Token) : ∃ ts, rest = ts ++ synchronize rest := by
  cases rest with
  | nil => exact ⟨[], rfl⟩
  | cons t rest => exact exists_boundary t rest

/-- What a parser takes stands at the front of its tokens, and is of the kinds that it may take. All
else in its state stays as it was. -/
theorem forward {p : ListParser α} (h : Built K p) (s : State) :
    ∃ ts, s = (p s).state.unread ts ∧ ∀ t ∈ ts, K t.kind := by
  induction h generalizing s with
  | pure a => exact ⟨[], rfl, by simp⟩
  -- The tokens taken by a sequence are those of its first part followed by those of its second
  -- part.
  | @bind _ _ p f _ _ ihp ihf =>
    obtain ⟨ts, hts, hkinds⟩ := ihp s
    cases hp : (p s).result with
    | error e => exact ⟨ts, by rwa [bind_error hp], hkinds⟩
    | ok a =>
      obtain ⟨us, hus, hkinds'⟩ := ihf a (p s).state
      refine ⟨ts ++ us, ?_, by simpa [or_imp, forall_and] using ⟨hkinds, hkinds'⟩⟩
      rw [bind_ok hp, ← State.unread_unread, ← hus]
      exact hts
  | peek => exact ⟨[], rfl, by simp⟩
  | check kind => exact ⟨[], rfl, by simp⟩
  | atEnd => exact ⟨[], rfl, by simp⟩
  | @accept kinds hkinds =>
    cases hs : s.rest with
    | nil => exact ⟨[], by rw [accept_nil hs]; rfl, by simp⟩
    | cons t rest =>
      by_cases hmem : t.kind ∈ kinds
      · refine ⟨[t], ?_, by simpa using hkinds _ hmem⟩
        rw [accept_of_mem hs hmem, State.unread, List.singleton_append, ← hs]
      · exact ⟨[], by rw [accept_of_not_mem hs hmem]; rfl, by simp⟩
  | unexpected message => exact ⟨[], rfl, by simp⟩
  | report he => exact ⟨[], rfl, by simp⟩
  | inFunction => exact ⟨[], rfl, by simp⟩
  | exhausted _ ih => exact ih s
  | @withinFunction _ p _ ih =>
    -- Inside, the state is marked; on the way out the mark is what it was before.
    change ∃ ts, s = ((p (s.within true)).state.within s.inFunction).unread ts ∧ _
    obtain ⟨ts, hts, hkinds⟩ := ih (s.within true)
    have hback := congrArg (State.within · s.inFunction) hts
    exact ⟨ts, by simpa using hback, hkinds⟩
  | @recovering _ p hall _ ih =>
    obtain ⟨ts, hts, -⟩ := ih s
    cases hr : (p s).result with
    | ok a => exact ⟨ts, by rwa [recovering_ok hr], fun t _ => hall t.kind⟩
    | error e =>
      -- What recovery passes over may be of any kind, which is why `K` must allow every kind here.
      obtain ⟨us, hus⟩ := exists_synchronize (p s).state.rest
      refine ⟨ts ++ us, ?_, fun t _ => hall t.kind⟩
      refine hts.trans ?_
      simp [recovering_error hr, State.unread, ← hus]

/-- Whether the tokens are part of a function is for the parser to look up, not to change. -/
theorem state_inFunction {p : ListParser α} (h : Built K p) (s : State) :
    (p s).state.inFunction = s.inFunction := by
  obtain ⟨ts, hts, -⟩ := h.forward s
  exact (congrArg State.inFunction hts).symm

/-- A parser never puts tokens back. -/
theorem rest_length_le {p : ListParser α} (h : Built K p) (s : State) :
    (p s).state.rest.length ≤ s.rest.length := by
  obtain ⟨ts, hts, -⟩ := h.forward s
  rw [congrArg State.rest hts]
  simp

/-! ## A parser does not look behind the tokens that it leaves -/

/-- Tokens further behind do not move a boundary that has been found. -/
theorem boundary_append {t : Token} {rest : List Token} (h : boundary t rest ≠ [])
    (us : List Token) : boundary t (rest ++ us) = boundary t rest ++ us := by
  induction rest generalizing t with
  | nil => exact absurd rfl h
  | cons u rest ih =>
    unfold boundary at h
    simp only [List.cons_append, boundary]
    split
    · rfl
    · rename_i hgo
      rw [if_neg hgo] at h
      exact ih h

theorem synchronize_append {rest : List Token} (h : synchronize rest ≠ []) (us : List Token) :
    synchronize (rest ++ us) = synchronize rest ++ us := by
  cases rest with
  | nil => exact absurd rfl h
  | cons t rest => exact boundary_append h us

end Built

/-- The state with the tokens and the end of `u` behind its own tokens. -/
def State.before (s u : State) : State :=
  { u with rest := s.rest ++ u.rest, inFunction := s.inFunction }

@[simp] theorem State.before_rest (s u : State) : (s.before u).rest = s.rest ++ u.rest := rfl

@[simp] theorem State.before_inFunction (s u : State) :
    (s.before u).inFunction = s.inFunction := rfl

@[simp] theorem State.before_within (s u : State) (fn : Bool) :
    (s.before u).within fn = (s.within fn).before u := rfl

theorem State.before_current {s : State} (h : s.rest ≠ []) (u : State) :
    (s.before u).current = s.current := by
  obtain ⟨t, rest, ht⟩ := List.exists_cons_of_ne_nil h
  simp [current, ht]

/-- The reply with more tokens behind those that are left. -/
def Reply.before {α : Type} (r : ListReply α) (u : State) : ListReply α :=
  { r with state := r.state.before u }

/-- Whether the next token is read does not depend on those behind it. -/
theorem accept_before {s : State} (hs : s.rest ≠ []) (kinds : List TokenKind) (u : State) :
    accept kinds (s.before u) = (accept kinds s).before u := by
  obtain ⟨t, rest, ht⟩ := List.exists_cons_of_ne_nil hs
  have ht' : (s.before u).rest = t :: (rest ++ u.rest) := by simp [ht]
  by_cases hmem : t.kind ∈ kinds
  · rw [accept_of_mem ht hmem, accept_of_mem ht' hmem]
    rfl
  · rw [accept_of_not_mem ht hmem, accept_of_not_mem ht' hmem]
    rfl

/-- The mark does not stand in the way of tokens further behind. -/
theorem withinFunction_before {α : Type} {p : ListParser α} {s u : State}
    (h : p ((s.within true).before u) = (p (s.within true)).before u) :
    withinFunction p (s.before u) = (withinFunction p s).before u := by
  rw [withinFunction_list, State.before_within, h, withinFunction_list]
  rfl

namespace Built

variable {K : TokenKind → Prop} {α : Type}

/-- A parser that leaves tokens unread does the same whatever stands behind them. -/
theorem apply_before {p : ListParser α} (h : Built K p) (s u : State)
    (hleft : (p s).state.rest ≠ []) :
    p (s.before u) = (p s).before u := by
  induction h generalizing s with
  | pure a => rfl
  -- If the first part gives up, the sequence has left what this part has left.
  | @bind _ _ p f hp hf ihp ihf =>
    cases hr : (p s).result with
    | error e =>
      rw [bind_error hr] at hleft ⊢
      have hp := ihp s hleft
      rw [bind_error (by rw [hp]; exact hr), hp]
      rfl
    | ok a =>
      rw [bind_ok hr] at hleft ⊢
      -- The second part has left tokens, so there were some for the first part to leave.
      have hp := ihp s fun hnil => hleft <| by
        simpa [hnil] using (hf a).rest_length_le (p s).state
      rw [bind_ok (by rw [hp]; exact hr), hp]
      simp only [Reply.before, ihf a (p s).state hleft]
  | peek =>
    simp only [Parser.peek, State.reader_current] at hleft ⊢
    simp only [Reply.before, State.before_current hleft u]
  | check kind =>
    obtain ⟨t, rest, ht⟩ := List.exists_cons_of_ne_nil hleft
    simp_all [Parser.check, Reply.before]
  | atEnd =>
    obtain ⟨t, rest, ht⟩ := List.exists_cons_of_ne_nil hleft
    simp_all [Parser.atEnd, Reply.before]
  | @accept kinds hkinds =>
    refine accept_before (fun hs => ?_) kinds u
    rw [accept_nil hs] at hleft
    exact hleft hs
  | unexpected message =>
    simp only [Parser.unexpected, State.reader_current] at hleft ⊢
    simp only [Reply.before, State.before_current hleft u]
  | report he => rfl
  | inFunction => rfl
  | withinFunction _ ih => exact withinFunction_before (ih (s.within true) hleft)
  | exhausted _ ih => exact ih s hleft
  | @recovering _ p _ _ ih =>
    cases hr : (p s).result with
    | ok a =>
      rw [recovering_ok hr] at hleft ⊢
      have hp := ih s hleft
      rw [recovering_ok (by rw [hp]; exact hr), hp]
      rfl
    | error e =>
      rw [recovering_error hr] at hleft ⊢
      -- Recovery has left tokens, so the parser inside had left some.
      have hp := ih s fun hnil => hleft (by simp [hnil, synchronize])
      rw [recovering_error (by rw [hp]; exact hr), hp]
      simp only [Reply.before, State.before_rest, synchronize_append hleft]
      rfl

/-! ## Errors and abandoned declarations -/

/-- The declarations that were abandoned are those whose error was noted. -/
theorem faithful {p : ListParser α} (h : Built K p) (s : State) :
    (p s).notes.errors.filterMap SyntaxError.unexpected? = (p s).notes.abandoned := by
  induction h generalizing s with
  | pure a => rfl
  | @bind _ _ p f _ _ ihp ihf =>
    cases hr : (p s).result with
    | error e => rw [bind_error hr, ihp s]
    | ok a => simp [bind_ok hr, ihp s, ihf a (p s).state]
  | peek => rfl
  | check kind => rfl
  | atEnd => rfl
  | accept _ => rw [accept_notes]; rfl
  | unexpected message => rfl
  -- Errors that are reported and not recovered from are of other kinds.
  | report he => simp [Parser.report, he]
  | inFunction => rfl
  | withinFunction _ ih => exact ih (s.within true)
  | exhausted _ ih => exact ih s
  | @recovering _ p _ _ ih =>
    cases hr : (p s).result with
    | ok a => rw [recovering_ok hr, ih s]
    | error e => simp [recovering_error hr, ih s, SyntaxError.unexpected?]

/-- Only recovery abandons a declaration, and recovery may pass over any token. -/
theorem abandoned_eq_nil {p : ListParser α} (h : Built K p) {k : TokenKind} (hk : ¬K k)
    (s : State) :
    (p s).notes.abandoned = [] := by
  induction h generalizing s with
  | pure a => rfl
  | @bind _ _ p f _ _ ihp ihf =>
    cases hr : (p s).result with
    | error e => rw [bind_error hr, ihp s]
    | ok a => simp [bind_ok hr, ihp s, ihf a (p s).state]
  | peek => rfl
  | check kind => rfl
  | atEnd => rfl
  | accept _ => rw [accept_notes]; rfl
  | unexpected message => rfl
  | report he => rfl
  | inFunction => rfl
  | withinFunction _ ih => exact ih (s.within true)
  | exhausted _ ih => exact ih s
  -- Only recovery abandons anything, and it needs every kind to be allowed.
  | recovering hall _ _ => exact absurd (hall k) hk

end Built

end Parser

end Treewalk
