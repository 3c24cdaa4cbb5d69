import Treewalk.Proofs.Parsing.Places

/-!
# Which returns a parser takes

A `Plan` says how a parser is put together, down to the parts that never take a `return`. It gives
all of the `return`s that the parser comes across, in their order: those that it takes, and those at
which a declaration is given up, so that recovery passes over them. Each comes with the state in
front of it and with the number of bodies of functions that are open there, which is counted along
the plan and not read off the state.

What holds of the returns of every plan is proved here, by induction on the plan: all of the
`return`s that were read are among them (`Plan.returns_tails`), and the state says whether a body is
open (`Plan.inFunction_eq`).
-/

namespace Treewalk.Parser

/-- A `return` that a parser comes across: the state in front of it, whether it is taken, and how
many of the bodies of functions that the parser reads are open. -/
structure Return where
  before : State
  taken : Bool
  depth : Nat

namespace Return

def keyword (r : Return) : Token :=
  r.before.current

/-- The same in the body of one more function. -/
def deeper (r : Return) : Return :=
  { r with depth := r.depth + 1 }

end Return

/-- The `return` at which a declaration is given up, if there is one. -/
def Reply.refused {α : Type} (r : ListReply α) : List Return :=
  match r.result with
  | .ok _ => []
  | .error _ => if r.state.current.kind = .returnWord then [⟨r.state, false, 0⟩] else []

/-- How a parser is put together from parsers that never take a `return`, and from those for single
tokens. -/
inductive Plan : {α : Type} → ListParser α → Type 1 where
  | plain {α : Type} {K : TokenKind → Prop} {p : ListParser α} :
      Built K p → ¬K .returnWord → Plan p
  | accept (kinds : List TokenKind) : Plan (accept kinds)
  | bind {α β : Type} {p : ListParser α} {f : α → ListParser β} :
      Plan p → (∀ a, Plan (f a)) → Plan (p >>= f)
  | withinFunction {α : Type} {p : ListParser α} : Plan p → Plan (withinFunction p)
  | recovering {α : Type} {p : ListParser α} : Plan p → Plan (recovering p)
  | ofEq {α : Type} {p q : ListParser α} : p = q → Plan p → Plan q

namespace Plan

variable {α β : Type} {p : ListParser α} {f : α → ListParser β} {s : State}

/-- The `return`s that the parser comes across from a state on. -/
def returns : {α : Type} → {p : ListParser α} → Plan p → State → List Return
  | _, _, plain _ _, _ => []
  | _, _, accept kinds, s =>
    if s.current.kind = .returnWord ∧ s.current.kind ∈ kinds then [⟨s, true, 0⟩] else []
  | _, _, @bind _ _ p _ c d, s =>
    c.returns s ++ ((p s).result.toOption.map fun a => (d a).returns (p s).state).getD []
  | _, _, withinFunction c, s => (c.returns (s.within true)).map Return.deeper
  | _, _, @recovering _ p c, s => c.returns s ++ (p s).refused
  | _, _, ofEq _ c, s => c.returns s

/-- What has a plan is built from the basic parsers. -/
theorem built (c : Plan p) : Built (fun _ => True) p := by
  induction c with
  | plain h _ => exact h.any
  | accept kinds => exact .accept fun _ _ => trivial
  | bind _ _ ihp ihf => exact .bind ihp ihf
  | withinFunction _ ih => exact .withinFunction ih
  | recovering _ ih => exact .recovering (fun _ => trivial) ih
  | ofEq h _ ih => exact h ▸ ih

section
variable {c : Plan p} {d : ∀ a, Plan (f a)}

theorem returns_bind_ok {a : α} (h : (p s).result = .ok a) :
    (bind c d).returns s = c.returns s ++ (d a).returns (p s).state := by
  simp [returns, h, Except.toOption]

theorem returns_bind_error {e : Unexpected} (h : (p s).result = .error e) :
    (bind c d).returns s = c.returns s := by
  simp [returns, h, Except.toOption]

/-- A `return` in a sequence is in one of its parts. -/
theorem mem_returns_bind {r : Return} (h : r ∈ (bind c d).returns s) :
    r ∈ c.returns s ∨ ∃ a, (p s).result = .ok a ∧ r ∈ (d a).returns (p s).state := by
  cases hr : (p s).result with
  | error e => exact .inl (returns_bind_error hr ▸ h)
  | ok a =>
    rw [returns_bind_ok hr] at h
    exact (List.mem_append.1 h).imp_right fun hmem => ⟨a, rfl, hmem⟩

end

/-- Behind a token that is taken, or in front of one that is not. -/
theorem accept_bind_cases {f : Option Token → ListParser β} (kinds : List TokenKind)
    (d : ∀ o, Plan (f o)) (s : State) :
    ((Parser.accept kinds >>= f) s = f none s ∧
      (bind (accept kinds) d).returns s = (d none).returns s) ∨
    ∃ t s', s = s'.unread [t] ∧ (Parser.accept kinds >>= f) s = f (some t) s' ∧
      (bind (accept kinds) d).returns s =
        (if t.kind = .returnWord then [⟨s, true, 0⟩] else []) ++ (d (some t)).returns s' := by
  by_cases hread : ∃ t, (Parser.accept kinds s).result = .ok (some t)
  · obtain ⟨t, ht⟩ := hread
    obtain ⟨hmem, hunread, hnotes⟩ := accept_some ht
    refine .inr ⟨t, _, hunread, ?_, ?_⟩
    · rw [bind_ok ht, hnotes]
      rfl
    · have hcurrent : s.current = t := by rw [hunread]; rfl
      rw [returns_bind_ok ht]
      simp only [returns, hcurrent, hmem, and_true]
  · have hnone : Parser.accept kinds s = ⟨.ok none, s, .none⟩ ∧ (accept kinds).returns s = [] := by
      cases hs : s.rest with
      | nil => exact ⟨accept_nil hs kinds, by simp [returns, State.current, hs, s.stop_kind]⟩
      | cons t rest =>
        have hmem : t.kind ∉ kinds := fun hmem => hread ⟨t, by rw [accept_of_mem hs hmem]⟩
        exact ⟨accept_of_not_mem hs hmem, by simp [returns, State.current, hs, hmem]⟩
    exact .inl ⟨bind_silent hnone.1, by
      rw [returns_bind_ok (by rw [hnone.1]), hnone.2, hnone.1, List.nil_append]⟩

/-- A `return` at which a declaration was given up is the token that was not expected. -/
theorem mem_refused {r : ListReply α} {x : Return} (h : x ∈ r.refused) :
    x = ⟨r.state, false, 0⟩ ∧ ∃ e, r.result = .error e := by
  unfold Reply.refused at h
  split at h
  · cases h
  · rename_i e he
    split at h
    · exact ⟨List.mem_singleton.1 h, e, he⟩
    · cases h

/-! ## The mark of the state -/

/-- The state in front of a `return` is marked if and only if a body of a function is open, be it
one that this parser reads or one around it. -/
theorem inFunction_eq (c : Plan p) {r : Return} (h : r ∈ c.returns s) :
    r.before.inFunction = (s.inFunction || decide (0 < r.depth)) := by
  induction c generalizing s r with
  | plain => cases h
  | accept kinds =>
    simp only [returns] at h
    split at h
    · cases List.mem_singleton.1 h
      simp
    · cases h
  | bind c _ ihp ihf =>
    obtain h | ⟨a, -, h⟩ := mem_returns_bind h
    · exact ihp h
    · rw [ihf a h, c.built.state_inFunction]
  | withinFunction c ih =>
    obtain ⟨r, hr, rfl⟩ := List.mem_map.1 h
    -- Inside, the state is marked wherever the parser is.
    change r.before.inFunction = (_ || decide (0 < r.depth + 1))
    simp [ih hr]
  | recovering c ih =>
    obtain h | h := List.mem_append.1 h
    · exact ih h
    · obtain ⟨rfl, -⟩ := mem_refused h
      simp [c.built.state_inFunction]
  | ofEq _ _ ih => exact ih h

end Plan

/-! ## Where the returns are -/

/-- The parts of the tokens that start with a `return`, from the longest to the shortest. -/
def returnTails : List Token → List (List Token)
  | [] => []
  | t :: rest =>
    if t.kind = .returnWord then (t :: rest) :: returnTails rest else returnTails rest

/-- Tokens without a `return` contribute nothing. -/
theorem returnTails_append {ts : List Token} (h : ∀ t ∈ ts, t.kind ≠ .returnWord)
    (rest : List Token) : returnTails (ts ++ rest) = returnTails rest := by
  induction ts with
  | nil => rfl
  | cons t ts ih =>
    obtain ⟨ht, hts⟩ := List.forall_mem_cons.1 h
    rw [List.cons_append, returnTails, if_neg ht, ih hts]

/-- Recovery stops in front of every `return`, so that it passes over none but the one it starts at.
-/
theorem returnTails_boundary (t : Token) (rest : List Token) :
    returnTails (boundary t rest) = returnTails rest := by
  induction rest generalizing t with
  | nil => rfl
  | cons u rest ih =>
    rw [boundary]
    split
    · rfl
    · rename_i hgo
      -- Recovery stops in front of a `return`, so it goes on over other tokens only.
      have hu : u.kind ≠ .returnWord := by
        intro hu
        simp [startsStatement, hu] at hgo
      rw [ih, returnTails, if_neg hu]

/-- Recovery passes over one `return` at most, the one at which the declaration was given up. -/
theorem refused_synchronize {α : Type} {r : ListReply α} {e : Unexpected}
    (h : r.result = .error e) :
    r.refused.map (·.before.rest) ++ returnTails (synchronize r.state.rest) =
      returnTails r.state.rest := by
  rw [Reply.refused, h]
  cases hrest : r.state.rest with
  | nil =>
    have hkind : r.state.current.kind ≠ .returnWord := by
      simp [State.current, hrest, r.state.stop_kind]
    simp [hkind, synchronize]
  | cons t rest =>
    have hcurrent : r.state.current = t := by simp [State.current, hrest]
    rw [hcurrent, synchronize, returnTails_boundary, returnTails]
    by_cases ht : t.kind = .returnWord <;> simp [ht, hrest]

/-- All `return`s between where the parser starts and where it ends are among those that it comes
across, each of them once and in their order. -/
theorem Plan.returns_tails {α : Type} {p : ListParser α} (c : Plan p) (s : State) :
    (c.returns s).map (·.before.rest) ++ returnTails (p s).state.rest = returnTails s.rest := by
  induction c generalizing s with
  | @plain _ K p h hK =>
    obtain ⟨ts, hts, hkinds⟩ := h.forward s
    have hrest : s.rest = ts ++ (p s).state.rest := congrArg State.rest hts
    -- There is no return among the tokens that are read here.
    rw [hrest, returnTails_append fun t ht hkind => hK (hkind ▸ hkinds t ht)]
    rfl
  | accept kinds =>
    cases hs : s.rest with
    | nil => simp [returns, State.current, hs, s.stop_kind, accept_nil hs, returnTails]
    | cons t rest =>
      by_cases hmem : t.kind ∈ kinds
      · by_cases ht : t.kind = .returnWord <;>
          simp_all [returns, State.current, accept_of_mem hs hmem, returnTails]
      · simp [returns, State.current, hs, hmem, accept_of_not_mem hs hmem]
  | @bind _ _ p f c d ihp ihf =>
    cases hr : (p s).result with
    | error e => rw [returns_bind_error hr, bind_error hr, ihp s]
    | ok a =>
      rw [returns_bind_ok hr, bind_ok hr, List.map_append, List.append_assoc, ihf a, ihp s]
  | withinFunction c ih =>
    have hinner := ih (s.within true)
    rw [returns, List.map_map]
    exact hinner
  | @recovering _ p c ih =>
    rw [returns, List.map_append, List.append_assoc]
    cases hr : (p s).result with
    | ok a => rw [recovering_ok hr, Reply.refused, hr, List.map_nil, List.nil_append, ih s]
    | error e => rw [recovering_error hr, refused_synchronize hr, ih s]
  | ofEq h _ ih => exact h ▸ ih s

/-! ## Returns that are not taken -/

/-- Errors noted by the first part stay noted. -/
theorem mem_errors_bind {α β : Type} {p : ListParser α} {s : State} {e : SyntaxError}
    (h : e ∈ (p s).notes.errors) (f : α → ListParser β) : e ∈ ((p >>= f) s).notes.errors := by
  cases hr : (p s).result with
  | error => rwa [bind_error hr]
  | ok => rw [bind_ok hr]; exact List.mem_append_left _ h

theorem mem_errors_recovering {α : Type} {p : ListParser α} {s : State} {e : SyntaxError}
    (h : e ∈ (p s).notes.errors) : e ∈ (recovering p s).notes.errors := by
  cases hr : (p s).result with
  | ok => rwa [recovering_ok hr]
  | error => rw [recovering_error hr]; exact List.mem_append_left _ h

/-- Where a `return` was not taken, a declaration was given up at it. -/
theorem Plan.exists_unexpected {α : Type} {p : ListParser α} (c : Plan p) {s : State} {r : Return}
    (h : r ∈ c.returns s) (htaken : r.taken = false) :
    ∃ u, .unexpectedToken u ∈ (p s).notes.errors ∧ u.found = r.keyword := by
  induction c generalizing s r with
  | plain => cases h
  | accept kinds =>
    simp only [returns] at h
    split at h
    · cases List.mem_singleton.1 h
      cases htaken
    · cases h
  | @bind _ _ p f c d ihp ihf =>
    obtain h | ⟨a, hr, h⟩ := mem_returns_bind h
    · obtain ⟨u, hu, hfound⟩ := ihp h htaken
      exact ⟨u, mem_errors_bind hu f, hfound⟩
    · obtain ⟨u, hu, hfound⟩ := ihf a h htaken
      exact ⟨u, by rw [bind_ok hr]; exact List.mem_append_right _ hu, hfound⟩
  | withinFunction c ih =>
    obtain ⟨r, hr, rfl⟩ := List.mem_map.1 h
    obtain ⟨u, hu, hfound⟩ := ih hr htaken
    exact ⟨u, hu, hfound⟩
  | @recovering _ p c ih =>
    obtain h | h := List.mem_append.1 h
    · obtain ⟨u, hu, hfound⟩ := ih h htaken
      exact ⟨u, mem_errors_recovering hu, hfound⟩
    -- The declaration that is given up here was refused at this very token.
    · obtain ⟨rfl, e, he⟩ := mem_refused h
      exact ⟨e, by simp [recovering_error he], c.built.found_eq he⟩
  | ofEq h' _ ih =>
    subst h'
    exact ih h htaken

end Treewalk.Parser
