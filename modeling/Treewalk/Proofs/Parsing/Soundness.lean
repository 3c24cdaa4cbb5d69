import Treewalk.Proofs.Parsing.Clean
import Treewalk.Proofs.Parsing.Grammar

/-!
# What is read cleanly follows the grammar

Whatever a parser reads without noting an error is spelled as the grammar says, and the tree that it
makes is the one that the grammar gives these tokens. The bounds of the parsers play no part here: a
parser that stops early has read less, but nothing wrong.
-/

namespace Treewalk.Parser

open Grammar

/-- What the parser reads cleanly, with the result that it ends with, is in the relation. -/
def Spells {α : Type} (p : ListParser α) (D : List Token → α → Prop) : Prop :=
  ∀ s a t, p.Yields s a t → ∃ ts, s = t.unread ts ∧ D ts a

/-! ## Expressions -/

/-- A token that is not the end of the input is the first of those left. -/
theorem current_of_kind {s : State} (h : s.current.kind ≠ .eof) :
    ∃ rest, s.rest = s.current :: rest := by
  obtain ⟨rest, stop, hstop, fn⟩ := s
  cases rest with
  | nil => exact absurd hstop h
  | cons t rest => exact ⟨rest, rfl⟩

/-- Reading on after a look at the next token reads that token, unless the input has ended. -/
theorem yields_accept_current {s t : State} {o : Option Token} (hkind : s.current.kind ≠ .eof)
    (h : (accept [s.current.kind]).Yields s o t) : s = t.unread [s.current] := by
  obtain ⟨rest, hrest⟩ := current_of_kind hkind
  cases o with
  | none =>
    obtain ⟨havoid, -⟩ := yields_accept_none.1 h
    exact absurd (List.mem_singleton_self _) (havoid s.current (by simp [hrest]))
  | some tok =>
    obtain ⟨-, hs⟩ := yields_accept_some.1 h
    have hcurrent : s.current = tok := by rw [hs]; rfl
    rwa [hcurrent]

/-- A literal token spells a primary expression. -/
theorem literalToken_spells {s t : State} {value : Literal} {e : Expr}
    (hdenotes : Denotes s.current value) (hkind : s.current.kind ≠ .eof)
    (h : (primary.literalToken s.current value).Yields s e t) :
    ∃ ts, s = t.unread ts ∧ Primary ts e := by
  simp only [primary.literalToken, yields_bind, yields_pure] at h
  obtain ⟨o, u, haccept, rfl, rfl⟩ := h
  exact ⟨_, yields_accept_current hkind haccept, .literal hdenotes⟩

/-- What was read as a primary expression is one. -/
theorem primary_spells {inner : ListParser Expr} (hinner : inner.Spells Expression) :
    (primary inner).Spells Primary := by
  intro s e t h
  simp only [primary, yields_bind, yields_peek] at h
  obtain ⟨_, _, ⟨rfl, rfl⟩, h⟩ := h
  -- The parser looks at the next token, and its kind decides the production.
  split at h
  · next hkind => exact literalToken_spells (.falseWord hkind) (by simp [hkind]) h
  · next hkind => exact literalToken_spells (.trueWord hkind) (by simp [hkind]) h
  · next hkind => exact literalToken_spells (.nullWord hkind) (by simp [hkind]) h
  · next hkind hvalue => exact literalToken_spells (.number hkind hvalue) (by simp [hkind]) h
  · next hkind hvalue => exact literalToken_spells (.string hkind hvalue) (by simp [hkind]) h
  · next hkind =>
    simp only [yields_bind, yields_pure] at h
    obtain ⟨o, u, haccept, rfl, rfl⟩ := h
    exact ⟨_, yields_accept_current (by simp [hkind]) haccept, .var hkind⟩
  · next hkind =>
    simp only [yields_bind, yields_pure, yields_expect] at h
    obtain ⟨o, u, haccept, inside, v, hinside, right, _, ⟨hright, rfl⟩, rfl, rfl⟩ := h
    obtain ⟨ts, rfl, hts⟩ := hinner _ _ _ hinside
    refine ⟨_, ?_, .group hkind hts hright⟩
    simpa using yields_accept_current (by simp [hkind]) haccept
  · exact absurd h not_yields_unexpected

/-- What was read as a list consists of items between commas, each fitting behind those before it.
-/
theorem commaList_spells {α : Type} {item : List α → ListParser α} {Item : List Token → α → Prop}
    {Fits : List α → α → Prop}
    (hitem : ∀ before, (item before).Spells fun ts a => Item ts a ∧ Fits before a)
    {bound : Nat} {before as : List α} {s t : State}
    (h : (commaList item bound before).Yields s as t) :
    ∃ ts a rest, s = t.unread ts ∧ as = before ++ a :: rest ∧ Separated Item ts (a :: rest) ∧
      Successive Fits before (a :: rest) := by
  induction bound generalizing before s with
  | zero =>
    obtain ⟨a, ha, rfl⟩ := yields_commaList_zero.1 h
    obtain ⟨ts, rfl, hts, hfits⟩ := hitem before _ _ _ ha
    exact ⟨ts, a, [], rfl, rfl, .one hts, hfits, trivial⟩
  | succ bound ih =>
    obtain ⟨a, u, ha, hrest⟩ := yields_commaList_succ.1 h
    obtain ⟨ts, rfl, hts, hfits⟩ := hitem before _ _ _ ha
    -- ⟨comma | No comma, and the list ends with this item; or a comma, and the rest is a list
    -- behind one item more.
    obtain ⟨-, rfl, rfl⟩ | ⟨comma, u', hcomma, rfl, hlist⟩ := hrest
    · exact ⟨ts, a, [], rfl, rfl, .one hts, hfits, trivial⟩
    · obtain ⟨us, b, rest, rfl, rfl, hus, hsuccessive⟩ := ih hlist
      exact ⟨ts ++ comma :: us, a, b :: rest, by simp, by simp, .more hts hcomma hus, hfits,
        hsuccessive⟩

/-- What was read in parentheses is empty or a list. -/
theorem items_spells {α : Type} {item : List α → ListParser α} {Item : List Token → α → Prop}
    {Fits : List α → α → Prop}
    (hitem : ∀ before, (item before).Spells fun ts a => Item ts a ∧ Fits before a) (bound : Nat) :
    (items bound item).Spells fun ts as => Separated Item ts as ∧ Successive Fits [] as := by
  intro s as t h
  obtain ⟨-, rfl, rfl⟩ | ⟨-, hlist⟩ := yields_items.1 h
  · exact ⟨[], rfl, .none, trivial⟩
  · obtain ⟨ts, a, rest, rfl, rfl, hts, hsuccessive⟩ := commaList_spells hitem hlist
    exact ⟨ts, rfl, hts, hsuccessive⟩

/-- An argument beyond the limit would have been reported. -/
theorem argument_spells {inner : ListParser Expr} (hinner : inner.Spells Expression)
    (before : List Expr) :
    (argument inner before).Spells fun ts e => Expression ts e ∧ before.length < maxArguments := by
  intro s e t h
  -- Beyond the last argument that is allowed an error would have been noted.
  simp only [argument, yields_ite, yields_bind, not_yields_report, false_and, exists_false,
    and_false, false_or, Nat.not_le] at h
  obtain ⟨ts, rfl, hts⟩ := hinner _ _ _ h.2
  exact ⟨ts, rfl, hts, h.1⟩

/-- What was read as arguments makes a call of any callee in front of it. -/
theorem arguments_spells {inner : ListParser Expr} (hinner : inner.Spells Expression) {bound : Nat}
    {s t : State} {args : List Expr} {paren : Token}
    (h : (arguments bound inner).Yields s (some (args, paren)) t) :
    ∃ us, s = t.unread us ∧
      ∀ cs callee, Call cs callee → Call (cs ++ us) (.call callee paren args) := by
  simp only [arguments, yields_bind] at h
  obtain ⟨_ | left, u, haccept, h⟩ := h
  · simp [yields_pure] at h
  · simp only [yields_bind, yields_pure, yields_expect] at h
    obtain ⟨as, v, has, right, _, ⟨hright, rfl⟩, heq, rfl⟩ := h
    obtain ⟨rfl, rfl⟩ : as = args ∧ right = paren := by simpa using heq
    -- Each state is known from the one behind it, so the closing parenthesis came first.
    obtain ⟨hleft, rfl⟩ := yields_accept_some.1 haccept
    obtain ⟨ts, rfl, hts, hfits⟩ := items_spells (argument_spells hinner) bound _ _ _ has
    refine ⟨left :: (ts ++ [right]), by simp, fun cs callee hcallee => ?_⟩
    exact .apply hcallee (List.mem_singleton.1 hleft) hts
      ((successive_length (Nat.zero_le _)).1 hfits) hright

/-- Where no call follows, nothing was read. -/
theorem arguments_none {inner : ListParser Expr} {bound : Nat} {s t : State}
    (h : (arguments bound inner).Yields s none t) : s = t := by
  simp only [arguments, yields_bind] at h
  obtain ⟨_ | left, u, haccept, h⟩ := h
  · obtain ⟨-, rfl⟩ := yields_accept_none.1 haccept
    exact (yields_pure.1 h).2
  · simp [yields_bind, yields_pure] at h

/-- A tree that grows on the left with every round of a list. -/
theorem many_spells_foldl {α β : Type} {p : ListParser (Option β)} {f : α → β → α}
    {D : List Token → α → Prop} (hnone : ∀ {s t}, p.Yields s none t → s = t)
    (hsome : ∀ {s b t}, p.Yields s (some b) t →
      ∃ us, s = t.unread us ∧ ∀ ts a, D ts a → D (ts ++ us) (f a b))
    {bound : Nat} {s t : State} {bs : List β} (h : (many p bound).Yields s bs t)
    {ts : List Token} {a : α} (ha : D ts a) :
    ∃ us, s = t.unread us ∧ D (ts ++ us) (bs.foldl f a) := by
  induction bound generalizing s bs ts a with
  | zero =>
    obtain ⟨rfl, rfl⟩ := yields_many_zero.1 h
    exact ⟨[], rfl, by simpa using ha⟩
  | succ bound ih =>
    obtain ⟨hend, rfl⟩ | ⟨b, rest, u, hb, hrest, rfl⟩ := yields_many_succ.1 h
    · exact ⟨[], by simpa using hnone hend, by simpa using ha⟩
    · obtain ⟨us, rfl, hgrow⟩ := hsome hb
      obtain ⟨vs, rfl, hvs⟩ := ih hrest (hgrow _ _ ha)
      exact ⟨us ++ vs, by simp, by simpa using hvs⟩

/-- A primary expression and any number of calls. -/
theorem call_spells {inner : ListParser Expr} (hinner : inner.Spells Expression) (bound : Nat) :
    (call bound inner).Spells Call := by
  intro s e t h
  simp only [call, yields_bind, yields_pure] at h
  obtain ⟨callee, u, hcallee, calls, _, hcalls, rfl, rfl⟩ := h
  obtain ⟨cs, rfl, hcs⟩ := primary_spells hinner _ _ _ hcallee
  obtain ⟨us, rfl, hus⟩ := many_spells_foldl (D := Call)
    (f := fun callee b => .call callee b.2 b.1) arguments_none
    (fun h => arguments_spells hinner h) hcalls (.primary hcs)
  exact ⟨cs ++ us, by simp, hus⟩

/-- Tokens that were taken one by one, all of the kinds asked for. -/
theorem many_accept_spells {kinds : List TokenKind} {bound : Nat} {s t : State} {ops : List Token}
    (h : (many (accept kinds) bound).Yields s ops t) :
    s = t.unread ops ∧ ∀ op ∈ ops, op.kind ∈ kinds := by
  induction bound generalizing s ops with
  | zero =>
    obtain ⟨rfl, rfl⟩ := yields_many_zero.1 h
    exact ⟨rfl, by simp⟩
  | succ bound ih =>
    obtain ⟨hend, rfl⟩ | ⟨op, rest, u, hop, hrest, rfl⟩ := yields_many_succ.1 h
    · exact ⟨(yields_accept_none.1 hend).2, by simp⟩
    · obtain ⟨hkind, rfl⟩ := yields_accept_some.1 hop
      obtain ⟨rfl, hkinds⟩ := ih hrest
      exact ⟨by simp, by simpa using ⟨hkind, hkinds⟩⟩

/-- Operators and then a call. -/
theorem unary_spells {inner : ListParser Expr} (hinner : inner.Spells Expression) (bound : Nat) :
    (unary bound inner).Spells Unary := by
  intro s e t h
  simp only [unary, yields_bind, yields_pure] at h
  obtain ⟨ops, u, hops, operand, _, hoperand, rfl, rfl⟩ := h
  obtain ⟨rfl, hkinds⟩ := many_accept_spells hops
  obtain ⟨ts, rfl, hts⟩ := call_spells hinner bound _ _ _ hoperand
  refine ⟨ops ++ ts, by simp, ?_⟩
  -- Unary operators nest from the right, and so the last one read is the innermost.
  clear hops
  induction ops with
  | nil => exact .call hts
  | cons op ops ih =>
    have hop : op.kind = .bang ∨ op.kind = .minus := by simpa using hkinds op (by simp)
    exact .operator hop (ih fun op' hmem => hkinds op' (List.mem_cons_of_mem _ hmem))

theorem operation_none {kinds : List TokenKind} {operand : ListParser Expr} {s t : State}
    (h : (operation kinds operand).Yields s none t) : s = t := by
  simp only [operation, yields_bind] at h
  obtain ⟨_ | op, u, haccept, h⟩ := h
  · exact (yields_accept_none.1 haccept).2.trans (yields_pure.1 h).2
  · simp [yields_bind, yields_pure] at h

/-- An operator with its right operand goes on with any left operand of its tier. -/
theorem operation_spells {tier : Tier} {operand : ListParser Expr}
    (hoperand : operand.Spells (Operand tier.tighter?)) {s t : State} {b : Token × Expr}
    (h : (operation tier.operators operand).Yields s (some b) t) :
    ∃ us, s = t.unread us ∧ ∀ ls l, Operand (some tier) ls l →
      Operand (some tier) (ls ++ us) (tier.node l b.1 b.2) := by
  simp only [operation, yields_bind] at h
  obtain ⟨_ | op, u, haccept, h⟩ := h
  · simp [yields_pure] at h
  · simp only [yields_bind, yields_pure] at h
    obtain ⟨r, _, hr, heq, rfl⟩ := h
    obtain rfl : (op, r) = b := by simpa using heq
    obtain ⟨hop, rfl⟩ := yields_accept_some.1 haccept
    obtain ⟨rs, rfl, hrs⟩ := hoperand _ _ _ hr
    exact ⟨op :: rs, by simp, fun ls l hl => .binary hl hop hrs⟩

/-- The level of operators that a tier of the grammar stands for. -/
def level (tier : Tier) : Level := ⟨tier.operators, tier.node⟩

/-- What was read on a level of precedence is an operand of its tier, grouped to the left. -/
theorem level_spells (tier : Tier) {operand : ListParser Expr}
    (hoperand : operand.Spells (Operand tier.tighter?)) (bound : Nat) :
    ((level tier).expression bound operand).Spells (Operand (some tier)) := by
  intro s e t h
  simp only [Level.expression, level, yields_bind, yields_pure] at h
  obtain ⟨first, u, hfirst, rest, _, hrest, rfl, rfl⟩ := h
  obtain ⟨ts, rfl, hts⟩ := hoperand _ _ _ hfirst
  obtain ⟨us, rfl, hus⟩ := many_spells_foldl (D := Operand (some tier))
    (f := fun l b => tier.node l b.1 b.2) operation_none (operation_spells hoperand) hrest
    (.tighter hts)
  exact ⟨ts ++ us, by simp, hus⟩

/-- The levels are the tiers of the grammar, in the same order. -/
theorem operations_spells {inner : ListParser Expr} (hinner : inner.Spells Expression)
    (bound : Nat) :
    (operations bound inner).Spells (Operand (some .or)) := by
  have hunary : (unary bound inner).Spells (Operand none) := by
    intro s e t h
    obtain ⟨ts, rfl, hts⟩ := unary_spells hinner bound _ _ _ h
    exact ⟨ts, rfl, .unary hts⟩
  exact level_spells .or (level_spells .and (level_spells .equality (level_spells .comparison
    (level_spells .term (level_spells .factor hunary bound) bound) bound) bound) bound) bound

/-- Only a bare name spells a variable. -/
theorem operand_eq_name {tier : Option Tier} {ts : List Token} {e : Expr} {name : Token} :
    Operand tier ts e → e = .var name → ts = [name] ∧ name.kind = .identifier
  | .unary h, heq => by
    subst heq
    cases h with
    | call h =>
      cases h with
      | primary h =>
        cases h with
        | var hkind => exact ⟨rfl, hkind⟩
  | .tighter h, heq => operand_eq_name h heq
  -- No tier makes a variable out of two operands.
  | @Operand.binary tier _ _ _ _ _ _ _ _, heq => by cases tier <;> cases heq

/-- One step of the induction for expressions: without an equals sign, an operation; with one, the
target must have been a name, as anything else would have been reported. -/
theorem assignment_spells {inner : ListParser Expr} (hinner : inner.Spells Expression)
    (bound : Nat) :
    (assignment bound inner).Spells Expression := by
  intro s e t h
  simp only [assignment, yields_bind] at h
  obtain ⟨target, u, htarget, _ | equals, v, haccept, h⟩ := h
  · obtain ⟨-, rfl⟩ := yields_accept_none.1 haccept
    obtain ⟨rfl, rfl⟩ := yields_pure.1 h
    obtain ⟨ts, rfl, hts⟩ := operations_spells hinner bound _ _ _ htarget
    exact ⟨ts, rfl, .operation hts⟩
  · obtain ⟨hequals, rfl⟩ := yields_accept_some.1 haccept
    obtain ⟨value, w, hvalue, hnode⟩ := yields_bind.1 h
    obtain ⟨us, rfl, hus⟩ := hinner _ _ _ hvalue
    obtain ⟨ts, rfl, hts⟩ := operations_spells hinner bound _ _ _ htarget
    split at hnode
    · next name =>
      obtain ⟨rfl, rfl⟩ := yields_pure.1 hnode
      -- A tree that is a name was spelled by that name alone, without parentheses.
      obtain ⟨rfl, hname⟩ := operand_eq_name hts rfl
      exact ⟨name :: equals :: us, by simp, .assign hname (List.mem_singleton.1 hequals) hus⟩
    · simp [yields_bind, not_yields_report] at hnode

/-- What was read as an expression is one, whatever the bound was. -/
theorem expression_spells (bound : Nat) : (expression bound).Spells Expression := by
  induction bound with
  | zero =>
    intro s e t h
    exact absurd h not_yields_unexpected
  | succ bound ih => exact assignment_spells ih (bound + 1)

/-! ## Statements -/

/-- What the parser reads cleanly behind the tokens `before` spells a statement together with them.
Where the statement would take an `else` behind it, none follows. -/
def SpellsStatement (p : ListParser Stmt) (before : List Token) : Prop :=
  ∀ s a t, p.Yields s a t → ∃ ts d, s = t.unread ts ∧
    Statement s.inFunction d (before ++ ts) a ∧ (d = true → t.Avoids [.elseWord])

/-- What the parser reads cleanly spells a declaration. -/
def SpellsDeclaration (p : ListParser (Option Stmt)) : Prop :=
  ∀ s o t, p.Yields s o t → ∃ ts a, s = t.unread ts ∧ o = some a ∧ Declaration s.inFunction ts a

section
variable {E : ListParser Expr} {S : ListParser Stmt} {D : ListParser (Option Stmt)} {s t : State}

/-- An expression and its semicolon, with both of which the callers go on. -/
theorem expressionStatement_spells (hE : E.Spells Expression) :
    (expressionStatement E).Spells fun ts a => ∃ us e semicolon, ts = us ++ [semicolon] ∧
      a = .expr e ∧ Expression us e ∧ semicolon.kind = .semicolon := by
  intro s a t h
  simp only [expressionStatement, yields_bind, yields_pure, yields_expect] at h
  obtain ⟨e, u, he, semicolon, _, ⟨hsemicolon, rfl⟩, rfl, rfl⟩ := h
  obtain ⟨ts, rfl, hts⟩ := hE _ _ _ he
  exact ⟨ts ++ [semicolon], by simp, ts, e, semicolon, rfl, rfl, hts, hsemicolon⟩

/-- Behind the word `var`, with an initial value or without one. -/
theorem varDeclaration_spells (hE : E.Spells Expression) :
    (varDeclaration E).Spells fun ts a =>
      ∀ word, word.kind = .varWord → Variable (word :: ts) a := by
  intro s a t h
  simp only [varDeclaration, yields_bind, yields_expect] at h
  obtain ⟨name, _, ⟨hname, rfl⟩, _ | equals, u, haccept, h⟩ := h
  · obtain ⟨-, rfl⟩ := yields_accept_none.1 haccept
    simp only [yields_bind, yields_pure, yields_expect] at h
    obtain ⟨_, _, ⟨rfl, rfl⟩, semicolon, _, ⟨hsemicolon, rfl⟩, rfl, rfl⟩ := h
    exact ⟨[name, semicolon], by simp, fun word hword => .bare hword hname hsemicolon⟩
  · obtain ⟨hequals, rfl⟩ := yields_accept_some.1 haccept
    simp only [yields_bind, yields_map, yields_pure, yields_expect] at h
    obtain ⟨_, u, ⟨e, he, rfl⟩, semicolon, _, ⟨hsemicolon, rfl⟩, rfl, rfl⟩ := h
    obtain ⟨ts, rfl, hts⟩ := hE _ _ _ he
    exact ⟨name :: equals :: (ts ++ [semicolon]), by simp, fun word hword =>
      .initialized hword hname (List.mem_singleton.1 hequals) hts hsemicolon⟩

theorem clause_spells (hE : E.Spells Expression) (stop : TokenKind) :
    (clause stop E).Spells Clause := by
  intro s o t h
  simp only [clause, yields_bind, yields_ite, yields_pure, yields_map, yields_check] at h
  obtain ⟨b, _, ⟨-, rfl⟩, ⟨-, rfl, rfl⟩ | ⟨-, e, he, rfl⟩⟩ := h
  · exact ⟨[], rfl, .absent⟩
  · obtain ⟨ts, rfl, hts⟩ := hE _ _ _ he
    exact ⟨ts, rfl, .present hts⟩

/-- The three forms of the first clause of a for statement. -/
theorem initializer_spells (hE : E.Spells Expression) : (initializer E).Spells Initializer := by
  intro s o t h
  simp only [initializer, yields_bind] at h
  obtain ⟨_ | first, u, haccept, h⟩ := h
  · obtain ⟨-, rfl⟩ := yields_accept_none.1 haccept
    obtain ⟨a, ha, rfl⟩ := yields_map.1 h
    obtain ⟨_, rfl, us, e, semicolon, rfl, rfl, hus, hsemicolon⟩ :=
      expressionStatement_spells hE _ _ _ ha
    exact ⟨us ++ [semicolon], rfl, .expression hus hsemicolon⟩
  · obtain ⟨hfirst, rfl⟩ := yields_accept_some.1 haccept
    obtain ⟨hkind, hpure⟩ | ⟨hkind, hvar⟩ := yields_ite.1 h
    · obtain ⟨rfl, rfl⟩ := yields_pure.1 hpure
      exact ⟨[first], rfl, .absent hkind⟩
    · obtain ⟨a, ha, rfl⟩ := yields_map.1 hvar
      obtain ⟨ts, rfl, hts⟩ := varDeclaration_spells hE _ _ _ ha
      have hword : first.kind = .varWord := by simpa [hkind] using hfirst
      exact ⟨first :: ts, by simp, .var (hts first hword)⟩

/-- An `else` is taken by the innermost if statement that it can belong to. The derivation says so
by the mark on the first branch. -/
theorem ifStatement_spells (hE : E.Spells Expression) (hS : S.SpellsStatement []) {word : Token}
    (hword : word.kind = .ifWord) : (ifStatement E S).SpellsStatement [word] := by
  intro s a t h
  simp only [ifStatement, yields_bind, yields_expect] at h
  obtain ⟨left, _, ⟨hleft, rfl⟩, cond, _, hcond, right, _, ⟨hright, rfl⟩, branch, _, hbranch,
    _ | other, u, haccept, h⟩ := h
  · obtain ⟨havoid, rfl⟩ := yields_accept_none.1 haccept
    simp only [yields_bind, yields_pure] at h
    obtain ⟨_, _, ⟨rfl, rfl⟩, rfl, rfl⟩ := h
    obtain ⟨ts, d, rfl, hts, -⟩ := hS _ _ _ hbranch
    obtain ⟨cs, rfl, hcs⟩ := hE _ _ _ hcond
    exact ⟨left :: (cs ++ right :: ts), true, by simp, .branch hword hleft hcs hright hts,
      fun _ => havoid⟩
  · obtain ⟨hother, rfl⟩ := yields_accept_some.1 haccept
    simp only [yields_bind, yields_map, yields_pure] at h
    obtain ⟨_, _, ⟨branch', hbranch', rfl⟩, rfl, rfl⟩ := h
    -- Each state is known from the one behind it, so the last part is taken apart first.
    obtain ⟨us, d', rfl, hus, havoid⟩ := hS _ _ _ hbranch'
    obtain ⟨ts, d, rfl, hts, hdangling⟩ := hS _ _ _ hbranch
    obtain ⟨cs, rfl, hcs⟩ := hE _ _ _ hcond
    -- The `else` that follows the first branch shows that the branch takes none.
    have hd : d = false := by
      cases d with
      | false => rfl
      | true => exact absurd hother (State.avoids_unread_cons.1 (hdangling rfl))
    subst hd
    exact ⟨left :: (cs ++ right :: (ts ++ other :: us)), d', by simp,
      .branchElse hword hleft hcs hright hts (List.mem_singleton.1 hother) hus, havoid⟩

/-- A loop takes an `else` behind it if its body does. -/
theorem whileStatement_spells (hE : E.Spells Expression) (hS : S.SpellsStatement [])
    {word : Token} (hword : word.kind = .whileWord) :
    (whileStatement E S).SpellsStatement [word] := by
  intro s a t h
  simp only [whileStatement, yields_bind, yields_expect, yields_pure] at h
  obtain ⟨left, _, ⟨hleft, rfl⟩, cond, _, hcond, right, _, ⟨hright, rfl⟩, body, _, hbody, rfl,
    rfl⟩ := h
  obtain ⟨ts, d, rfl, hts, havoid⟩ := hS _ _ _ hbody
  obtain ⟨cs, rfl, hcs⟩ := hE _ _ _ hcond
  exact ⟨left :: (cs ++ right :: ts), d, by simp, .loop hword hleft hcs hright hts, havoid⟩

/-- The grammar and the parser put the clauses of a for statement together alike. -/
theorem loopForm_eq_forLoop (first : Option Stmt) (cond increment : Option Expr) (body : Stmt) :
    loopForm cond body first increment = .forLoop first cond increment body := by
  cases first <;> cases cond <;> cases increment <;> rfl

/-- A for statement, in the form that its clauses are put together. -/
theorem forStatement_spells (hE : E.Spells Expression) (hS : S.SpellsStatement []) {word : Token}
    (hword : word.kind = .forWord) : (forStatement E S).SpellsStatement [word] := by
  intro s a t h
  simp only [forStatement, yields_bind, yields_expect, yields_pure] at h
  obtain ⟨left, _, ⟨hleft, rfl⟩, first, _, hfirst, cond, _, hcond, semicolon, _,
    ⟨hsemicolon, rfl⟩, increment, _, hincrement, right, _, ⟨hright, rfl⟩, body, _, hbody, rfl,
    rfl⟩ := h
  -- Each state is known from the one behind it, so the clauses are taken apart from the last one
  -- on.
  obtain ⟨ts, d, rfl, hts, havoid⟩ := hS _ _ _ hbody
  obtain ⟨is, rfl, his⟩ := clause_spells hE _ _ _ _ hincrement
  obtain ⟨cs, rfl, hcs⟩ := clause_spells hE _ _ _ _ hcond
  obtain ⟨fs, rfl, hfs⟩ := initializer_spells hE _ _ _ hfirst
  rw [← loopForm_eq_forLoop]
  exact ⟨left :: (fs ++ (cs ++ semicolon :: (is ++ right :: ts))), d, by simp,
    .forLoop hword hleft hfs hcs hsemicolon his hright hts, havoid⟩

theorem printStatement_spells (hE : E.Spells Expression) {word : Token}
    (hword : word.kind = .printWord) : (printStatement E).SpellsStatement [word] := by
  intro s a t h
  simp only [printStatement, yields_bind, yields_expect, yields_pure] at h
  obtain ⟨e, _, he, semicolon, _, ⟨hsemicolon, rfl⟩, rfl, rfl⟩ := h
  obtain ⟨ts, rfl, hts⟩ := hE _ _ _ he
  exact ⟨ts ++ [semicolon], false, by simp, .print hword hts hsemicolon, by simp⟩

/-- A return statement stands in a function, with a value or without one. -/
theorem returnStatement_spells (hE : E.Spells Expression) {word : Token}
    (hword : word.kind = .returnWord) : (returnStatement E word).SpellsStatement [word] := by
  intro s a t h
  simp only [returnStatement, yields_bind, yields_inFunction, yields_ite, not_yields_report,
    false_and, exists_false, and_false, false_or, yields_expect, yields_pure] at h
  obtain ⟨fn, _, ⟨hfn, rfl⟩, hinside, value, _, hvalue, semicolon, _, ⟨hsemicolon, rfl⟩, rfl,
    rfl⟩ := h
  obtain ⟨ts, rfl, hts⟩ := clause_spells hE _ _ _ _ hvalue
  -- Outside of a function an error would have been noted.
  obtain rfl : fn = true := by simpa using hinside
  refine ⟨ts ++ [semicolon], false, by simp, ?_, by simp⟩
  rw [hfn]
  exact .ret hword hts hsemicolon

/-! ## Declarations -/

/-- Declarations that are read in rounds, each of which ends the list or is a declaration. -/
theorem many_spells_declarations (hD : D.SpellsDeclaration)
    {next : ListParser (Option (Option Stmt))} (hnone : ∀ {s t}, next.Yields s none t → s = t)
    (hsome : ∀ {s o t}, next.Yields s (some o) t → D.Yields s o t) {bound : Nat}
    {found : List (Option Stmt)} (h : (many next bound).Yields s found t) :
    ∃ ts, s = t.unread ts ∧ Declarations s.inFunction ts (found.filterMap id) := by
  induction bound generalizing s found with
  | zero =>
    obtain ⟨rfl, rfl⟩ := yields_many_zero.1 h
    exact ⟨[], rfl, .nil⟩
  | succ bound ih =>
    obtain ⟨hend, rfl⟩ | ⟨o, rest, u, ho, hrest, rfl⟩ := yields_many_succ.1 h
    · exact ⟨[], hnone hend, .nil⟩
    · obtain ⟨ts, a, rfl, rfl, hts⟩ := hD _ _ _ (hsome ho)
      obtain ⟨us, rfl, hus⟩ := ih hrest
      exact ⟨ts ++ us, by simp, .cons hts hus⟩

/-- A block holds the declarations up to its brace; none was abandoned, since all was clean. -/
theorem block_spells (hD : D.SpellsDeclaration) {bound : Nat} {body : List Stmt}
    (h : (block bound D).Yields s body t) :
    ∃ ts right, s = t.unread (ts ++ [right]) ∧ Declarations s.inFunction ts body ∧
      right.kind = .rightBrace := by
  simp only [block, declarations, yields_bind, yields_expect, yields_pure] at h
  obtain ⟨_, _, ⟨found, _, hfound, rfl, rfl⟩, right, _, ⟨hright, rfl⟩, rfl, rfl⟩ := h
  -- Where the block ends nothing is read.
  have hnone : ∀ {s t}, (declarations.next D).Yields s none t → s = t := by
    intro s t h
    simp only [declarations.next, yields_bind, yields_ite, yields_pure, yields_map, yields_atEnd,
      yields_check] at h
    obtain ⟨_, _, ⟨-, rfl⟩, _, _, ⟨-, rfl⟩, ⟨-, -, rfl⟩ | ⟨-, _, -, ⟨⟩⟩⟩ := h
    rfl
  -- In any other round it is one declaration that is read.
  have hsome : ∀ {s o t}, (declarations.next D).Yields s (some o) t → D.Yields s o t := by
    intro s o t h
    simp only [declarations.next, yields_bind, yields_ite, yields_pure, yields_map, yields_atEnd,
      yields_check] at h
    obtain ⟨_, _, ⟨-, rfl⟩, _, _, ⟨-, rfl⟩, ⟨-, ⟨⟩, -⟩ | ⟨-, _, ho, ⟨⟩⟩⟩ := h
    exact ho
  obtain ⟨ts, rfl, hts⟩ := many_spells_declarations hD hnone hsome hfound
  exact ⟨ts, right, by simp, hts, hright⟩

/-- A parameter that was not reported is within the limit and has a new name. -/
theorem parameter_spells (before : List Token) :
    (parameter before).Spells fun ts name => Parameter ts name ∧
      before.length < maxArguments ∧ name.lexeme ∉ before.map Token.lexeme := by
  intro s name t h
  simp only [parameter, yields_ite, yields_bind, not_yields_report, false_and, exists_false,
    and_false, false_or, yields_expect, yields_pure, Nat.not_le] at h
  obtain ⟨hlength, _, _, ⟨hname, rfl⟩, hnew, rfl, rfl⟩ := h
  refine ⟨[_], rfl, .name hname, hlength, fun hmem => ?_⟩
  obtain ⟨p, hp, heq⟩ := List.mem_map.1 hmem
  exact hnew (List.any_eq_true.2 ⟨p, hp, beq_iff_eq.2 heq⟩)

/-- What was read behind the word `fun` is a function with that word in front of it. -/
theorem funDeclaration_spells (hD : D.SpellsDeclaration) (bound : Nat) {a : Stmt}
    (h : (funDeclaration bound D).Yields s a t) :
    ∃ ts, s = t.unread ts ∧
      ∀ word, word.kind = .funWord → Declaration s.inFunction (word :: ts) a := by
  simp only [funDeclaration, yields_bind, yields_expect, yields_pure, yields_withinFunction] at h
  obtain ⟨name, _, ⟨hname, rfl⟩, left, _, ⟨hleft, rfl⟩, params, _, hparams, right, _,
    ⟨hright, rfl⟩, opening, u, ⟨hopening, rfl⟩, body, _, ⟨v, hbody, rfl⟩, rfl, rfl⟩ := h
  obtain ⟨ts, closing, hu, hts, hclosing⟩ := block_spells hD hbody
  obtain ⟨ps, rfl, hps, hfits⟩ := items_spells parameter_spells bound _ _ _ hparams
  obtain ⟨hlength, hnames⟩ := successive_and.1 hfits
  have hnil : (([] : List Token).map Token.lexeme).Nodup := List.nodup_nil
  -- The body was read inside of the function; behind it the state is what it was outside.
  have hback : u = (v.within u.inFunction).unread (ts ++ [closing]) := by
    rw [← State.unread_within, ← hu, State.within_within, State.within_self]
  refine ⟨name :: left :: (ps ++ right :: opening :: (ts ++ [closing])), ?_, fun word hword => ?_⟩
  · rw [hback]
    simp
  · exact .function hword hname hleft hps ((successive_length (Nat.zero_le _)).1 hlength)
      ((successive_nodup hnil).1 hnames) hright hopening hts hclosing

/-- One step of the induction for statements. The word that was taken decides which one it is. -/
theorem statementOf_spells (hS : S.SpellsStatement []) (hD : D.SpellsDeclaration) (bound : Nat) :
    (statementOf bound S D).SpellsStatement [] := by
  have hE := expression_spells bound
  intro s a t h
  simp only [statementOf, yields_bind] at h
  obtain ⟨_ | word, u, haccept, h⟩ := h
  · obtain ⟨-, rfl⟩ := yields_accept_none.1 haccept
    obtain ⟨_, rfl, us, e, semicolon, rfl, rfl, hus, hsemicolon⟩ :=
      expressionStatement_spells hE _ _ _ h
    exact ⟨us ++ [semicolon], false, rfl, .expr hus hsemicolon, by simp⟩
  · obtain ⟨hmem, rfl⟩ := yields_accept_some.1 haccept
    -- Whatever statement the word starts, the word belongs to its tokens.
    have hword : ∀ {p : ListParser Stmt}, p.SpellsStatement [word] → p.Yields u a t →
        ∃ ts d, u.unread [word] = t.unread ts ∧
          Statement (u.unread [word]).inFunction d ([] ++ ts) a ∧
          (d = true → t.Avoids [.elseWord]) := by
      intro p hp hyields
      obtain ⟨ts, d, rfl, hts, havoid⟩ := hp _ _ _ hyields
      exact ⟨word :: ts, d, by simp, hts, havoid⟩
    dsimp only at h
    split at h
    · next hkind => exact hword (ifStatement_spells hE hS hkind) h
    · next hkind => exact hword (forStatement_spells hE hS hkind) h
    · next hkind => exact hword (whileStatement_spells hE hS hkind) h
    · next hkind => exact hword (printStatement_spells hE hkind) h
    · next hkind => exact hword (returnStatement_spells hE hkind) h
    · next hif hfor hwhile hprint hreturn =>
      -- What is left of the words that start a statement is the brace.
      have hkind : word.kind = .leftBrace := by
        simp only [statementWords, List.mem_cons, List.not_mem_nil, or_false] at hmem
        grind
      obtain ⟨body, hbody, rfl⟩ := yields_map.1 h
      obtain ⟨ts, right, rfl, hts, hright⟩ := block_spells hD hbody
      exact ⟨word :: (ts ++ [right]), false, by simp, .block hkind hts hright, by simp⟩

/-- One step of the induction for declarations. One that was abandoned would not have been read
cleanly. -/
theorem declarationOf_spells (hS : S.SpellsStatement []) (hD : D.SpellsDeclaration) (bound : Nat) :
    (declarationOf bound S D).SpellsDeclaration := by
  intro s o t h
  cases o with
  | none => exact absurd h not_yields_recovering_none
  | some a =>
    simp only [declarationOf, yields_recovering_some, yields_bind] at h
    obtain ⟨_ | word, u, haccept, h⟩ := h
    · obtain ⟨-, rfl⟩ := yields_accept_none.1 haccept
      obtain ⟨ts, d, rfl, hts, -⟩ := statementOf_spells hS hD bound _ _ _ h
      exact ⟨ts, a, rfl, rfl, .statement hts⟩
    · obtain ⟨hmem, rfl⟩ := yields_accept_some.1 haccept
      obtain ⟨hkind, hfun⟩ | ⟨hkind, hvar⟩ := yields_ite.1 h
      · obtain ⟨ts, rfl, hts⟩ := funDeclaration_spells hD bound hfun
        exact ⟨word :: ts, a, by simp, rfl, hts word hkind⟩
      · obtain ⟨ts, rfl, hts⟩ := varDeclaration_spells (expression_spells bound) _ _ _ hvar
        have hword : word.kind = .varWord := by simpa [hkind] using hmem
        exact ⟨word :: ts, a, by simp, rfl, .var (hts word hword)⟩

end

/-- Statements and declarations are read as the grammar says. The two are built from each other for
smaller bounds, so that one induction on the bound carries both. -/
theorem statement_spells (bound : Nat) :
    (statement bound).SpellsStatement [] ∧ (declaration bound).SpellsDeclaration := by
  induction bound with
  | zero =>
    rw [statement, declaration, exhausted_list, exhausted_list]
    refine ⟨fun s a t h => absurd h not_yields_unexpected, fun s o t h => ?_⟩
    cases o with
    | none => exact absurd h not_yields_recovering_none
    | some a => exact absurd (yields_recovering_some.1 h) not_yields_unexpected
  | succ bound ih =>
    exact ⟨statementOf_spells ih.1 ih.2 (bound + 1), declarationOf_spells ih.1 ih.2 (bound + 1)⟩

end Treewalk.Parser
