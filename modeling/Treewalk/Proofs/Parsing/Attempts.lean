import Treewalk.Proofs.Parsing.Progress

/-!
# Attempts at declarations

Programs, blocks and bodies of functions are lists of declarations, and each of these is an attempt:
it gives a statement, or it is given up at a token and parsing goes on at the next boundary. An
attempt can have others inside.

An `Account` of a parser lists all attempts that the parser makes, in the order in which they end,
and holds the proof that they make up a `Course`: what was abandoned is what was given up, in this
order, and whatever is given up later is given up further on. Only at the end of the input there is
nothing further on. An attempt that is given up there leaves no token for what is around it, and so
all attempts that are still open are given up there too, one after the other, and none is made any
more.
-/

namespace Treewalk.Parser

/-! ## Further on -/

/-- The second state is the first one or stands further on in the same tokens. -/
def State.Passes (s s' : State) : Prop :=
  s.stop = s'.stop ∧ ∃ ts, s.rest = ts ++ s'.rest

namespace State.Passes

variable {s s' s'' : State}

theorem refl (s : State) : s.Passes s :=
  ⟨rfl, [], rfl⟩

theorem trans (h : s.Passes s') (h' : s'.Passes s'') : s.Passes s'' := by
  obtain ⟨hstop, ts, hts⟩ := h
  obtain ⟨hstop', us, hus⟩ := h'
  exact ⟨hstop.trans hstop', ts ++ us, by rw [hts, hus, List.append_assoc]⟩

/-- Further on, fewer tokens are left. -/
theorem length_le (h : s.Passes s') : s'.rest.length ≤ s.rest.length := by
  obtain ⟨-, ts, hts⟩ := h
  rw [hts, List.length_append]
  omega

theorem eq_nil (h : s.Passes s') (hs : s.rest = []) : s'.rest = [] := by
  have hle := h.length_le
  rw [hs] at hle
  exact List.eq_nil_of_length_eq_zero (Nat.le_zero.1 hle)

/-- What is behind a place stays behind it. -/
theorem behind (h : s.Passes s') {left : Nat} (hs : s.rest.length < left ∨ left = 0 ∧ s.rest = []) :
    s'.rest.length < left ∨ left = 0 ∧ s'.rest = [] := by
  obtain hlt | ⟨hleft, hnil⟩ := hs
  · exact .inl (Nat.lt_of_le_of_lt h.length_le hlt)
  · exact .inr ⟨hleft, h.eq_nil hnil⟩

theorem synchronize (s : State) : s.Passes { s with rest := synchronize s.rest } :=
  ⟨rfl, Built.exists_synchronize s.rest⟩

/-- Further on is at a greater index of the same tokens. -/
theorem exists_at (h : s.Passes s') {tokens : List Token} {i : Nat} (hs : s.At tokens i) :
    ∃ j, i ≤ j ∧ s'.At tokens j := by
  obtain ⟨hstop, ts, hts⟩ := h
  have hunread : (s'.unread ts).At tokens i :=
    ⟨hs.le, hts.symm.trans hs.rest_eq, hstop ▸ hs.stop_eq⟩
  exact ⟨i + ts.length, Nat.le_add_right _ _, hunread.unread⟩

end State.Passes

/-- Wherever a parser ends is further on. -/
theorem Built.passes {K : TokenKind → Prop} {α : Type} {p : ListParser α} (h : Built K p)
    (s : State) :
    s.Passes (p s).state := by
  obtain ⟨ts, hts, -⟩ := h.forward s
  have hstop : s.stop = ((p s).state.unread ts).stop := congrArg State.stop hts
  have hrest : s.rest = ((p s).state.unread ts).rest := congrArg State.rest hts
  exact ⟨hstop, ts, hrest⟩

/-! ## Attempts -/

/-- An attempt at a declaration: where it was made, how it ended, and all attempts that were made
inside, in the order in which these ended. -/
structure Attempt where
  start : State
  reply : ListReply Stmt
  inside : List Attempt

namespace Attempt

/-- The statement that the attempt gave. -/
def statement? (a : Attempt) : Option Stmt :=
  a.reply.result.toOption

/-- The error at which the attempt was given up. -/
def error? (a : Attempt) : Option Unexpected :=
  match a.reply.result with
  | .ok _ => none
  | .error e => some e

/-- The number of tokens left where the attempt ended, before recovery. -/
def left (a : Attempt) : Nat :=
  a.reply.state.rest.length

/-- What became of the attempt: its statement, or an error and recovery. -/
def settled (a : Attempt) : ListReply (Option Stmt) :=
  recovering (fun _ => a.reply) a.start

/-- The attempts that have ended when this one has. -/
def ended (a : Attempt) : List Attempt :=
  a.inside ++ [a]

/-- The attempt was given up at the end of the input. -/
def AtEnd (a : Attempt) : Prop :=
  a.error?.isSome ∧ a.left = 0

/-- The attempt was made by the parser for declarations, in front of a token. The errors noted on
the way are those of the attempts inside, and its own error is found where it ended. If one of the
attempts inside is given up at the end of the input, so is this one. -/
structure Genuine (a : Attempt) : Prop where
  start_ne_nil : a.start.rest ≠ []
  declaration_eq : ∃ bound, declaration bound a.start = a.settled
  passes : a.start.Passes a.reply.state
  abandoned_eq : a.reply.notes.abandoned = a.inside.filterMap error?
  faithful : a.reply.notes.errors.filterMap SyntaxError.unexpected? = a.reply.notes.abandoned
  found_eq : ∀ e ∈ a.error?, e.found = a.reply.state.current
  atEnd : ∀ b ∈ a.inside, b.AtEnd → a.AtEnd

/-- The first attempt ends before the second one. If it was given up, the second can only be given
up further on. At the end of the input, the second one is around the first one and is given up there
too. -/
structure InOrder (a b : Attempt) : Prop where
  left_lt : a.error?.isSome → a.left ≠ 0 → b.error?.isSome → b.left < a.left
  atEnd : a.AtEnd → b.AtEnd ∧ a ∈ b.inside

variable {a : Attempt}

theorem error?_of_ok {statement : Stmt} (h : a.reply.result = .ok statement) : a.error? = none := by
  rw [error?, h]

theorem error?_of_error {e : Unexpected} (h : a.reply.result = .error e) : a.error? = some e := by
  rw [error?, h]

/-- An attempt leaves a statement, or one more error and recovery. -/
theorem settled_cases (a : Attempt) :
    (∃ statement, a.statement? = some statement ∧ a.error? = none ∧
      a.settled = ⟨.ok (some statement), a.reply.state, a.reply.notes⟩) ∨
    ∃ e, a.statement? = none ∧ a.error? = some e ∧
      a.settled = ⟨.ok none, { a.reply.state with rest := synchronize a.reply.state.rest },
        a.reply.notes ++ ⟨[.unexpectedToken e], [e]⟩⟩ := by
  cases h : a.reply.result with
  | ok statement =>
    exact .inl ⟨statement, by rw [statement?, h]; rfl, error?_of_ok h,
      recovering_ok (p := fun _ => a.reply) (s := a.start) h⟩
  | error e =>
    exact .inr ⟨e, by rw [statement?, h]; rfl, error?_of_error h,
      recovering_error (p := fun _ => a.reply) (s := a.start) h⟩

/-- Recovery turns the result of an attempt into a statement or none. -/
theorem settled_result (a : Attempt) : a.settled.result = .ok a.statement? := by
  obtain ⟨_, hstatement, -, heq⟩ | ⟨_, hstatement, -, heq⟩ := a.settled_cases <;>
    rw [heq, hstatement]

/-- An attempt that was given up adds its own error behind those inside. -/
theorem settled_abandoned (a : Attempt) :
    a.settled.notes.abandoned = a.reply.notes.abandoned ++ a.error?.toList := by
  obtain ⟨_, -, herror, heq⟩ | ⟨_, -, herror, heq⟩ := a.settled_cases <;> simp [heq, herror]

/-- Recovery only goes further on. -/
theorem passes_settled (a : Attempt) : a.reply.state.Passes a.settled.state := by
  obtain ⟨_, -, -, heq⟩ | ⟨_, -, -, heq⟩ := a.settled_cases
  · rw [heq]
    exact .refl _
  · rw [heq]
    exact .synchronize _

/-- Recovery goes behind the token at which an attempt was given up. -/
theorem settled_behind (h : a.error?.isSome) :
    a.settled.state.rest.length < a.left ∨ a.left = 0 ∧ a.settled.state.rest = [] := by
  obtain ⟨_, -, herror, -⟩ | ⟨_, -, -, heq⟩ := a.settled_cases
  · simp [herror] at h
  · rw [heq]
    by_cases hnil : a.reply.state.rest = []
    · exact .inr ⟨by rw [left, hnil]; rfl, by simp [hnil, synchronize]⟩
    · exact .inl (Built.length_synchronize_lt hnil)

end Attempt

/-! ## Courses -/

/-- These are the attempts that were made, in the order in which they ended, on the way from one
state to another, and these errors were noted for them. -/
structure Course (as : List Attempt) (s s' : State) (abandoned : List Unexpected) : Prop where
  passes : s.Passes s'
  genuine : ∀ a ∈ as, s.Passes a.start ∧ a.Genuine
  inside : ∀ a ∈ as, ∀ b ∈ a.inside, b ∈ as
  abandoned_eq : abandoned = as.filterMap Attempt.error?
  behind : ∀ a ∈ as, a.error?.isSome →
    s'.rest.length < a.left ∨ a.left = 0 ∧ s'.rest = []
  ordered : as.Pairwise Attempt.InOrder

namespace Course

variable {as bs : List Attempt} {s s' s'' : State} {abandoned abandoned' : List Unexpected}

theorem nil (h : s.Passes s') : Course [] s s' [] := by
  constructor <;> simp [h]

/-- A course inside of a function is one outside of it, because attempts do not depend on the mark
that is set back. -/
theorem within (h : Course as (s.within true) s' abandoned) :
    Course as s (s'.within s.inFunction) abandoned :=
  ⟨h.passes, h.genuine, h.inside, h.abandoned_eq, h.behind, h.ordered⟩

/-- No attempt ends with more tokens left than there were at the start. -/
theorem left_le (h : Course as s s' abandoned) {a : Attempt} (ha : a ∈ as) :
    a.left ≤ s.rest.length := by
  obtain ⟨hstart, hgenuine⟩ := h.genuine a ha
  exact (hstart.trans hgenuine.passes).length_le

/-- Behind an attempt that was given up at the end of the input no tokens are left. -/
theorem rest_eq_nil (h : Course as s s' abandoned) {a : Attempt} (ha : a ∈ as) (hend : a.AtEnd) :
    s'.rest = [] := by
  obtain hlt | ⟨-, hnil⟩ := h.behind a ha hend.1
  · rw [hend.2] at hlt
    exact absurd hlt (Nat.not_lt_zero _)
  · exact hnil

/-- One after the other. No attempt is made where no tokens are left. -/
theorem append (h : Course as s s' abandoned) (h' : Course bs s' s'' abandoned')
    (hsilent : s'.rest = [] → bs = []) : Course (as ++ bs) s s'' (abandoned ++ abandoned') where
  passes := h.passes.trans h'.passes
  genuine a ha := by
    obtain ha | ha := List.mem_append.1 ha
    · exact h.genuine a ha
    · exact ⟨h.passes.trans (h'.genuine a ha).1, (h'.genuine a ha).2⟩
  inside a ha b hb := by
    obtain ha | ha := List.mem_append.1 ha
    · exact List.mem_append_left _ (h.inside a ha b hb)
    · exact List.mem_append_right _ (h'.inside a ha b hb)
  abandoned_eq := by rw [h.abandoned_eq, h'.abandoned_eq, List.filterMap_append]
  behind a ha herror := by
    obtain ha | ha := List.mem_append.1 ha
    · exact h'.passes.behind (h.behind a ha herror)
    · exact h'.behind a ha herror
  ordered := by
    refine List.pairwise_append.2 ⟨h.ordered, h'.ordered, fun a ha b hb => ⟨?_, fun hend => ?_⟩⟩
    · intro herror hleft _
      obtain hlt | ⟨hzero, -⟩ := h.behind a ha herror
      · exact Nat.lt_of_le_of_lt (h'.left_le hb) hlt
      · exact absurd hzero hleft
    · -- An attempt given up at the end of the input leaves nothing to start another one with.
      rw [hsilent (h.rest_eq_nil ha hend)] at hb
      cases hb

/-- What is made inside an attempt ends before the attempt itself. -/
theorem close {a : Attempt} (h : Course a.inside a.start a.reply.state a.reply.notes.abandoned)
    (hgenuine : a.Genuine) :
    Course a.ended a.start a.settled.state a.settled.notes.abandoned where
  passes := h.passes.trans a.passes_settled
  genuine b hb := by
    obtain hb | hb := List.mem_append.1 hb
    · exact h.genuine b hb
    · cases List.mem_singleton.1 hb
      exact ⟨.refl _, hgenuine⟩
  inside b hb c hc := by
    obtain hb | hb := List.mem_append.1 hb
    · exact List.mem_append_left _ (h.inside b hb c hc)
    · cases List.mem_singleton.1 hb
      exact List.mem_append_left _ hc
  abandoned_eq := by
    rw [a.settled_abandoned, h.abandoned_eq, Attempt.ended, List.filterMap_append]
    cases ha : a.error? <;> simp [ha]
  behind b hb herror := by
    obtain hb | hb := List.mem_append.1 hb
    · exact a.passes_settled.behind (h.behind b hb herror)
    · cases List.mem_singleton.1 hb
      exact Attempt.settled_behind herror
  ordered := by
    refine List.pairwise_append.2 ⟨h.ordered, List.pairwise_singleton _ _, fun b hb c hc => ?_⟩
    cases List.mem_singleton.1 hc
    -- Before the end of the input, what is inside has recovered to behind where it was given up.
    refine ⟨fun herror hleft _ => ?_, fun hend => ⟨hgenuine.atEnd b hb hend, hb⟩⟩
    obtain hlt | ⟨hzero, -⟩ := h.behind b hb herror
    · exact hlt
    · exact absurd hzero hleft

end Course

/-! ## Accounts -/

/-- A list of the attempts that a parser makes from a state on, which is right wherever the parser
starts. Where no tokens are left it makes none. -/
structure Account {α : Type} (p : ListParser α) where
  attempts : State → List Attempt
  course (s : State) : Course (attempts s) s (p s).state (p s).notes.abandoned
  silent (s : State) : s.rest = [] → attempts s = []

/-- An account of a parser that gives up if an attempt inside is given up at the end of the
input. -/
structure StrictAccount {α : Type} (p : ListParser α) extends Account p where
  fails (s : State) (a : Attempt) : a ∈ attempts s → a.AtEnd → ∃ e, (p s).result = .error e

section
variable {α β : Type} {p : ListParser α} {f : α → ListParser β}

/-- The parser abandons no declaration. -/
def Quiet (p : ListParser α) : Prop :=
  ∀ s, (p s).notes.abandoned = []

/-- What abandons nothing in its parts abandons nothing. -/
theorem Quiet.bind (hp : p.Quiet) (hf : ∀ a, (f a).Quiet) : (p >>= f).Quiet := by
  intro s
  cases hr : (p s).result with
  | error e => rw [bind_error hr, hp s]
  | ok a => simp [bind_ok hr, hp s, hf a (p s).state]

theorem Quiet.pure (a : α) : (pure a : ListParser α).Quiet :=
  fun _ => rfl

theorem Quiet.map {g : α → β} (hp : p.Quiet) : (g <$> p).Quiet :=
  hp.bind fun _ => .pure _

theorem Quiet.accept (kinds : List TokenKind) : (accept kinds).Quiet := by
  intro s
  rw [accept_notes]
  rfl

theorem Quiet.expect (kind : TokenKind) (message : String) : (expect kind message).Quiet := by
  refine (Quiet.accept [kind]).bind fun o => ?_
  cases o with
  | none => exact fun _ => rfl
  | some t => exact .pure t

/-- A parser that abandons no declaration makes no attempt. -/
def StrictAccount.quiet (hbuilt : Built (fun _ => True) p) (hquiet : p.Quiet) :
    StrictAccount p where
  attempts _ := []
  course s := hquiet s ▸ .nil (hbuilt.passes s)
  silent _ _ := rfl
  fails _ _ ha := nomatch ha

namespace Account

/-- The attempts of the first parser, and then, if that has a result, those of the second one. -/
def bind (x : Account p) (y : ∀ a, Account (f a)) : Account (p >>= f) where
  attempts s := x.attempts s ++
    ((p s).result.toOption.map fun a => (y a).attempts (p s).state).getD []
  course s := by
    cases hr : (p s).result with
    | error e =>
      rw [bind_error hr]
      simpa [Except.toOption] using x.course s
    | ok a =>
      rw [bind_ok hr]
      exact (x.course s).append ((y a).course (p s).state) ((y a).silent (p s).state)
  silent s hs := by
    have hrest := (x.course s).passes.eq_nil hs
    cases hr : (p s).result with
    | error e => simp [x.silent s hs, Except.toOption]
    | ok a => simp [x.silent s hs, (y a).silent _ hrest, Except.toOption]

variable {x : Account p} {y : ∀ a, Account (f a)} {s : State}

/-- With a result of the first parser, the attempts of the second one come behind. -/
theorem attempts_bind_ok {a : α} (h : (p s).result = .ok a) :
    (x.bind y).attempts s = x.attempts s ++ (y a).attempts (p s).state := by
  simp [bind, h, Except.toOption]

/-- Without one, there are none to come. -/
theorem attempts_bind_error {e : Unexpected} (h : (p s).result = .error e) :
    (x.bind y).attempts s = x.attempts s := by
  simp [bind, h, Except.toOption]

/-- Nothing is added by parsers that make no attempts. -/
theorem attempts_bind_nil (h : ∀ a s, (y a).attempts s = []) :
    (x.bind y).attempts s = x.attempts s := by
  cases hr : (p s).result with
  | error e => exact attempts_bind_error hr
  | ok a => rw [attempts_bind_ok hr, h, List.append_nil]

end Account

namespace StrictAccount

/-- If an attempt inside is given up at the end of the input, it is enough that the second parser
gives up whenever the attempt belongs to the first one. -/
theorem fails_bind {x : Account p} {y : ∀ a, StrictAccount (f a)} {s : State} {b : Attempt}
    (hfirst : ∀ a, (p s).result = .ok a → b ∈ x.attempts s →
      ∃ e, (f a (p s).state).result = .error e)
    (hb : b ∈ (x.bind fun a => (y a).toAccount).attempts s) (hend : b.AtEnd) :
    ∃ e, ((p >>= f) s).result = .error e := by
  cases hr : (p s).result with
  | error e => exact ⟨e, by rw [bind_error hr]⟩
  | ok a =>
    rw [Account.attempts_bind_ok hr] at hb
    rw [bind_ok hr]
    obtain hb | hb := List.mem_append.1 hb
    · exact hfirst a hr hb
    · exact (y a).fails _ b hb hend

/-- A parser that gives up where no tokens are left makes up for one before it that does not give
up. -/
def close (x : Account p) (y : ∀ a, StrictAccount (f a))
    (hrefuses : ∀ a s, s.rest = [] → ∃ e, (f a s).result = .error e) :
    StrictAccount (p >>= f) where
  toAccount := x.bind fun a => (y a).toAccount
  fails s _ hb hend :=
    fails_bind (fun a _ hb => hrefuses a _ ((x.course s).rest_eq_nil hb hend)) hb hend

def bind (x : StrictAccount p) (y : ∀ a, StrictAccount (f a)) : StrictAccount (p >>= f) where
  toAccount := x.toAccount.bind fun a => (y a).toAccount
  fails s b hb hend := by
    refine fails_bind (fun a hr hb => ?_) hb hend
    -- The first parser has given up, so it has no result to go on with.
    obtain ⟨e, he⟩ := x.fails s b hb hend
    rw [hr] at he
    cases he

def pure (a : α) : StrictAccount (pure a : ListParser α) :=
  .quiet (.pure a) (.pure a)

def map (x : StrictAccount p) (g : α → β) : StrictAccount (g <$> p) :=
  x.bind fun a => .pure (g a)

def accept (kinds : List TokenKind) : StrictAccount (accept kinds) :=
  .quiet (.accept fun _ _ => trivial) (.accept kinds)

def expect (kind : TokenKind) (message : String) : StrictAccount (expect kind message) :=
  .quiet (.expect message trivial) (.expect kind message)

def withinFunction (x : StrictAccount p) : StrictAccount (withinFunction p) where
  attempts s := x.attempts (s.within true)
  course s := (x.course (s.within true)).within
  silent s hs := x.silent (s.within true) hs
  fails s := x.fails (s.within true)

def ofEq {q : ListParser α} (h : p = q) (x : StrictAccount p) : StrictAccount q where
  attempts := x.attempts
  course := h ▸ x.course
  silent := x.silent
  fails := h ▸ x.fails

def ofOption {f : Option α → ListParser β} (x : StrictAccount (f none))
    (y : ∀ a, StrictAccount (f (some a))) : ∀ o, StrictAccount (f o)
  | none => x
  | some a => y a

def ite {p q : ListParser α} (c : Prop) [Decidable c] (x : StrictAccount p) (y : StrictAccount q) :
    StrictAccount (if c then p else q) where
  attempts s := if c then x.attempts s else y.attempts s
  course s := by
    split
    · exact x.course s
    · exact y.course s
  silent s hs := by
    split
    · exact x.silent s hs
    · exact y.silent s hs
  fails s := by
    split
    · exact x.fails s
    · exact y.fails s

end StrictAccount

end

/-! ## Lists of declarations -/

/-- An account of a parser for declarations: what it tries, and the attempts inside. -/
structure Trial (D : ListParser (Option Stmt)) where
  body : ListParser Stmt
  eq_recovering : D = recovering body
  eq_declaration : ∃ bound, D = declaration bound
  built : Built (fun _ => True) body
  account : StrictAccount body

namespace Trial

variable {D : ListParser (Option Stmt)}

/-- The attempt made in a state. -/
def attempt (t : Trial D) (s : State) : Attempt :=
  ⟨s, t.body s, t.account.attempts s⟩

/-- What became of the attempt is what the parser for declarations does. -/
theorem settled_attempt (t : Trial D) (s : State) : (t.attempt s).settled = D s := calc
  (t.attempt s).settled = recovering t.body s := recovering_congr rfl
  _ = D s := (congrArg (fun q : ListParser _ => q s) t.eq_recovering).symm

/-- The attempt that is made in front of a token is one that the parser for declarations makes. -/
theorem attempt_genuine (t : Trial D) {s : State} (hs : s.rest ≠ []) : (t.attempt s).Genuine where
  start_ne_nil := hs
  declaration_eq := by
    obtain ⟨bound, hbound⟩ := t.eq_declaration
    have hdeclaration : D s = declaration bound s := congrArg (fun q : ListParser _ => q s) hbound
    exact ⟨bound, hdeclaration.symm.trans (t.settled_attempt s).symm⟩
  passes := t.built.passes s
  abandoned_eq := (t.account.course s).abandoned_eq
  faithful := t.built.faithful s
  found_eq e he := by
    cases hr : (t.body s).result with
    | ok statement =>
      rw [Attempt.error?_of_ok hr] at he
      cases he
    | error e' =>
      rw [Attempt.error?_of_error hr] at he
      cases he
      exact t.built.found_eq hr
  -- An attempt inside that ran into the end leaves nothing to go on with, and the account is
  -- strict, so that this one is given up as well.
  atEnd b hb hend := by
    obtain ⟨e, he⟩ := t.account.fails s b hb hend
    refine ⟨by rw [Attempt.error?_of_error he]; rfl, ?_⟩
    rw [Attempt.left, attempt, (t.account.course s).rest_eq_nil hb hend]
    rfl

/-- The attempts that have ended with this one lead up to where the parser goes on. -/
theorem attempt_course (t : Trial D) {s : State} (hs : s.rest ≠ []) :
    Course (t.attempt s).ended s (D s).state (D s).notes.abandoned := by
  have hcourse : Course (t.attempt s).ended s (t.attempt s).settled.state
      (t.attempt s).settled.notes.abandoned :=
    Course.close (t.account.course s) (t.attempt_genuine hs)
  rwa [t.settled_attempt] at hcourse

/-- The attempts of a list of declarations, round by round, up to where the list stops. -/
def rounds (t : Trial D) (stops : State → Bool) : (bound : Nat) → State → List Attempt
  | 0, _ => []
  | bound + 1, s => if stops s then [] else t.attempt s :: t.rounds stops bound (D s).state

/-- In every round, the parser stops or makes an attempt. It stops where no tokens are left. -/
structure Repeats (D : ListParser (Option Stmt)) (stops : State → Bool)
    (next : ListParser (Option (Option Stmt))) : Prop where
  stop {s : State} : stops s → next s = ⟨.ok none, s, .none⟩
  go {s : State} : ¬stops s → next s = (some <$> D) s
  stops_nil {s : State} : s.rest = [] → stops s

variable {stops : State → Bool} {next : ListParser (Option (Option Stmt))}

/-- Where nothing is left, no attempt is made. -/
theorem rounds_nil (t : Trial D) (h : Repeats D stops next) (bound : Nat) {s : State}
    (hs : s.rest = []) : t.rounds stops bound s = [] := by
  cases bound with
  | zero => rfl
  | succ bound => rw [rounds, if_pos (h.stops_nil hs)]

/-- Every attempt of a list gives its statement to the list, or none. -/
theorem many_eq (t : Trial D) (h : Repeats D stops next) (bound : Nat) (s : State) :
    (many next bound s).result = .ok ((t.rounds stops bound s).map Attempt.statement?) ∧
      Course ((t.rounds stops bound s).flatMap Attempt.ended) s (many next bound s).state
        (many next bound s).notes.abandoned := by
  induction bound generalizing s with
  | zero => exact ⟨rfl, .nil (.refl s)⟩
  | succ bound ih =>
    by_cases hstops : stops s
    · rw [many_silent (h.stop hstops) (Nat.zero_le _), rounds, if_pos hstops]
      exact ⟨rfl, .nil (.refl s)⟩
    · obtain ⟨hresult, hcourse⟩ := ih (D s).state
      have hattempt : (D s).result = .ok (t.attempt s).statement? := by
        rw [← t.settled_attempt, Attempt.settled_result]
      have hnext : next s = ⟨.ok (some (t.attempt s).statement?), (D s).state, (D s).notes⟩ := by
        rw [h.go hstops, map_ok _ hattempt]
      -- An attempt is only made in front of a token, since the list stops where there is none.
      have hs : s.rest ≠ [] := fun hnil => hstops (h.stops_nil hnil)
      rw [many_cons hnext hresult, rounds, if_neg hstops]
      refine ⟨rfl, (t.attempt_course hs).append hcourse fun hnil => ?_⟩
      rw [t.rounds_nil h bound hnil]
      rfl

/-- The account of a list of declarations. -/
def many (t : Trial D) (h : Repeats D stops next) (bound : Nat) : Account (many next bound) where
  attempts s := (t.rounds stops bound s).flatMap Attempt.ended
  course s := (t.many_eq h bound s).2
  silent s hs := by rw [t.rounds_nil h bound hs, List.flatMap_nil]

end Trial

end Treewalk.Parser
