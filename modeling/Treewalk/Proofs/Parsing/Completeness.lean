import Treewalk.Proofs.Parsing.Soundness

/-!
# What follows the grammar is read cleanly

Tokens that the grammar derives a tree from are read cleanly as that tree, in front of any token
that would not be read as part of it. A parser looks at one token behind what it reads, so each
statement names the kinds of tokens that must not stand there. A bound suffices if it is at least
the number of tokens derived, however many follow.
-/

namespace Treewalk.Parser

open Grammar

/-- Tokens in the relation, at most `n` of them, are read cleanly with the related result, unless a
token of the given kinds follows. -/
def Reads {α : Type} (p : ListParser α) (D : List Token → α → Prop) (n : Nat)
    (kinds : List TokenKind) : Prop :=
  ∀ ts a t, D ts a → ts.length ≤ n → t.Avoids kinds → p.Yields (t.unread ts) a t

/-- A bound that suffices for more tokens suffices for fewer. -/
theorem Reads.mono {α : Type} {p : ListParser α} {D : List Token → α → Prop} {n m : Nat}
    {kinds : List TokenKind} (h : p.Reads D n kinds) (hle : m ≤ n) : p.Reads D m kinds :=
  fun ts a t hts hlength => h ts a t hts (Nat.le_trans hlength hle)

/-! ## First tokens -/

/-- There is a first token, and it is of one of the given kinds. -/
def Starts (kinds : List TokenKind) (ts : List Token) : Prop :=
  ∃ t rest, ts = t :: rest ∧ t.kind ∈ kinds

theorem Starts.append {kinds : List TokenKind} {ts : List Token} (h : Starts kinds ts)
    (us : List Token) : Starts kinds (ts ++ us) := by
  obtain ⟨t, rest, rfl, hkind⟩ := h
  exact ⟨t, rest ++ us, rfl, hkind⟩

theorem Starts.mono {kinds more : List TokenKind} {ts : List Token} (h : Starts kinds ts)
    (hsub : kinds ⊆ more) : Starts more ts := by
  obtain ⟨t, rest, rfl, hkind⟩ := h
  exact ⟨t, rest, rfl, hsub hkind⟩

/-- If what may start the tokens and what must not come next have no kind in common, the tokens may
come next. -/
theorem Starts.avoids {kinds others : List TokenKind} {ts : List Token} {s : State}
    (h : Starts kinds ts) (hdisjoint : ∀ k ∈ kinds, k ∉ others) : (s.unread ts).Avoids others := by
  obtain ⟨t, rest, rfl, hkind⟩ := h
  exact State.avoids_unread_cons.2 (hdisjoint _ hkind)

/-- What has a first token is not empty. This is where bounds get smaller. -/
theorem Starts.length_pos {kinds : List TokenKind} {ts : List Token} (h : Starts kinds ts) :
    0 < ts.length := by
  obtain ⟨t, rest, rfl, -⟩ := h
  exact Nat.succ_pos _

/-- The kinds of the tokens that a primary expression can start with. -/
def primaryStarts : List TokenKind :=
  [.falseWord, .trueWord, .nullWord, .number, .string, .identifier, .leftParen]

/-- The kinds of the tokens that an expression can start with. -/
def expressionStarts : List TokenKind :=
  .bang :: .minus :: primaryStarts

theorem primary_starts {ts : List Token} {e : Expr} (h : Primary ts e) :
    Starts primaryStarts ts := by
  cases h with
  | literal hdenotes => cases hdenotes <;> exact ⟨_, [], rfl, by simp [primaryStarts, *]⟩
  | var hkind => exact ⟨_, [], rfl, by simp [primaryStarts, hkind]⟩
  | group hkind => exact ⟨_, _, rfl, by simp [primaryStarts, hkind]⟩

theorem call_starts {ts : List Token} {e : Expr} (h : Call ts e) : Starts primaryStarts ts := by
  cases h with
  | primary h => exact primary_starts h
  | apply h => exact (call_starts h).append _

theorem unary_starts {ts : List Token} {e : Expr} (h : Unary ts e) :
    Starts expressionStarts ts := by
  cases h with
  | operator hop => exact ⟨_, _, rfl, by obtain hop | hop := hop <;> simp [expressionStarts, hop]⟩
  | call h => exact (call_starts h).mono (by simp [expressionStarts])

/-- An operation starts as its leftmost operand does. -/
theorem operand_starts {tier : Option Tier} {ts : List Token} {e : Expr} :
    Operand tier ts e → Starts expressionStarts ts
  | .binary h _ _ => (operand_starts h).append _
  | .tighter h => operand_starts h
  | .unary h => unary_starts h

/-- An expression starts with an operand, also if it is an assignment, whose name is one. -/
theorem expression_starts {ts : List Token} {e : Expr} (h : Expression ts e) :
    Starts expressionStarts ts := by
  cases h with
  | assign hname => exact ⟨_, _, rfl, by simp [expressionStarts, primaryStarts, hname]⟩
  | operation h => exact operand_starts h

/-! ## Lists -/

/-- The rounds of a list, without a bound on their number. -/
inductive Rounds {α : Type} (p : ListParser (Option α)) : State → List α → State → Prop where
  | nil {s} : p.Yields s none s → Rounds p s [] s
  | cons {s a u as t} : p.Yields s (some a) u → Rounds p u as t → Rounds p s (a :: as) t

/-- A bound that covers the rounds is not used up before they end. -/
theorem Rounds.yields_many {α : Type} {p : ListParser (Option α)} {s t : State} {as : List α}
    (h : Rounds p s as t) {bound : Nat} (hbound : as.length ≤ bound) :
    (many p bound).Yields s as t := by
  induction h generalizing bound with
  | nil hend =>
    cases bound with
    -- Nothing more would be found, so that it does no harm to stop here.
    | zero => exact yields_many_zero.2 ⟨rfl, rfl⟩
    | succ bound => exact yields_many_succ.2 (.inl ⟨hend, rfl⟩)
  | cons ha _ ih =>
    cases bound with
    | zero => simp at hbound
    | succ bound =>
      exact yields_many_succ.2 (.inr ⟨_, _, _, ha, ih (Nat.le_of_succ_le_succ hbound), rfl⟩)

/-- What grows from a first part by steps on the right. -/
inductive LeftChain {α β : Type} (First : List Token → α → Prop) (Step : List Token → β → Prop)
    (f : α → β → α) : List Token → α → Prop where
  | first {ts a} : First ts a → LeftChain First Step f ts a
  | step {ts a us b} :
      LeftChain First Step f ts a → Step us b → LeftChain First Step f (ts ++ us) (f a b)

/-- A chain is read by a parser for its first part and rounds for its steps. The induction goes from
the last step to the first one and keeps the rounds that are still to come. -/
theorem LeftChain.yields {α β : Type} {First : List Token → α → Prop}
    {Step : List Token → β → Prop} {f : α → β → α} {p : ListParser α} {q : ListParser (Option β)}
    {n : Nat} {kinds starts : List TokenKind} (hp : p.Reads First n kinds)
    (hq : ∀ us b t, Step us b → us.length ≤ n → t.Avoids kinds →
      q.Yields (t.unread us) (some b) t)
    (hfirst : ∀ {ts a}, First ts a → 0 < ts.length)
    (hstep : ∀ {us b}, Step us b → Starts starts us) (hstarts : ∀ k ∈ starts, k ∉ kinds)
    {ts : List Token} {a : α} (h : LeftChain First Step f ts a) (hlength : ts.length ≤ n)
    {s t : State} {bs : List β} (hs : s.Avoids kinds) (hrounds : Rounds q s bs t) :
    ∃ a₀ u bs₀, p.Yields (s.unread ts) a₀ u ∧ Rounds q u (bs₀ ++ bs) t ∧
      bs₀.foldl f a₀ = a ∧ bs₀.length < ts.length := by
  induction h generalizing s bs with
  | first h => exact ⟨_, s, [], hp _ _ _ h hlength hs, hrounds, rfl, hfirst h⟩
  | @step ts a us b _ hb ih =>
    rw [List.length_append] at hlength
    obtain ⟨a₀, u, bs₀, hread, hmore, rfl, hlt⟩ := ih (Nat.le_of_add_right_le hlength)
      ((hstep hb).avoids hstarts) (.cons (hq us b s hb (by omega) hs) hrounds)
    refine ⟨a₀, u, bs₀ ++ [b], by simpa using hread, by simpa using hmore, by simp, ?_⟩
    have := (hstep hb).length_pos
    simp only [List.length_append, List.length_singleton]
    omega

/-- The same, with the rounds of a list that has a sufficient bound. -/
theorem LeftChain.yields_many {α β : Type} {First : List Token → α → Prop}
    {Step : List Token → β → Prop} {f : α → β → α} {p : ListParser α} {q : ListParser (Option β)}
    {n : Nat} {kinds starts : List TokenKind} (hp : p.Reads First n kinds)
    (hq : ∀ us b t, Step us b → us.length ≤ n → t.Avoids kinds →
      q.Yields (t.unread us) (some b) t)
    (hfirst : ∀ {ts a}, First ts a → 0 < ts.length)
    (hstep : ∀ {us b}, Step us b → Starts starts us) (hstarts : ∀ k ∈ starts, k ∉ kinds)
    {ts : List Token} {a : α} (h : LeftChain First Step f ts a) (hlength : ts.length ≤ n)
    {t : State} (ht : t.Avoids kinds) (hend : q.Yields t none t) {bound : Nat}
    (hbound : n ≤ bound) :
    ∃ a₀ u bs, p.Yields (t.unread ts) a₀ u ∧ (many q bound).Yields u bs t ∧ bs.foldl f a₀ = a := by
  obtain ⟨a₀, u, bs, hread, hrounds, hfold, hlt⟩ :=
    h.yields hp hq hfirst hstep hstarts hlength ht (.nil hend)
  rw [List.append_nil] at hrounds
  exact ⟨a₀, u, bs, hread, hrounds.yields_many (by omega), hfold⟩

/-- Taking the token in front. -/
theorem accept_reads {kinds : List TokenKind} {tok : Token} {ts : List Token} {t : State}
    (h : tok.kind ∈ kinds) :
    (accept kinds).Yields (t.unread (tok :: ts)) (some tok) (t.unread ts) :=
  yields_accept_some.2 ⟨h, by simp⟩

theorem expect_reads {kind : TokenKind} {message : String} {tok : Token} {ts : List Token}
    {t : State} (h : tok.kind = kind) :
    (expect kind message).Yields (t.unread (tok :: ts)) tok (t.unread ts) :=
  yields_expect.2 ⟨h, by simp⟩

/-- Items between commas are read as a list. An item is followed by a comma or by what follows the
list, and neither of them goes on with it. -/
theorem commaList_reads {α : Type} {item : List α → ListParser α} {Item : List Token → α → Prop}
    {Fits : List α → α → Prop} {n : Nat} {kinds : List TokenKind}
    (hitem : ∀ before, (item before).Reads (fun ts a => Item ts a ∧ Fits before a) n kinds)
    (hcomma : .comma ∉ kinds) {ts : List Token} {as : List α} (h : Separated Item ts as)
    (hlength : ts.length ≤ n) {bound : Nat} (hbound : ts.length ≤ bound) {before : List α}
    (hfits : Successive Fits before as) {t : State} (ht : t.Avoids (.comma :: kinds))
    (has : as ≠ []) :
    (commaList item bound before).Yields (t.unread ts) (before ++ as) t := by
  -- The kinds that go on with an item must not follow the list, nor must a comma.
  have htail : t.Avoids kinds := ht.mono (List.subset_cons_self _ _)
  induction h generalizing before bound with
  | none => exact absurd rfl has
  | one ha =>
    have hread := hitem before _ _ _ ⟨ha, hfits.1⟩ hlength htail
    cases bound with
    | zero => exact yields_commaList_zero.2 ⟨_, hread, rfl⟩
    | succ bound =>
      exact yields_commaList_succ.2
        ⟨_, _, hread, .inl ⟨ht.mono (by simp), rfl, rfl⟩⟩
  | @more ts a comma us b bs ha hkind _ ih =>
    simp only [List.length_append, List.length_cons] at hlength hbound
    have hread := hitem before ts a (t.unread (comma :: us)) ⟨ha, hfits.1⟩ (by omega)
      (State.avoids_unread_cons.2 (hkind ▸ hcomma))
    -- The comma is one of the tokens that the bound covers, so the bound is not yet zero.
    obtain ⟨bound, rfl⟩ : ∃ k, bound = k + 1 := ⟨bound - 1, by omega⟩
    have hrest : (commaList item bound (before ++ [a])).Yields (t.unread us)
        (before ++ [a] ++ b :: bs) t := ih (by omega) (by omega) hfits.2 (by simp)
    rw [List.append_assoc] at hrest
    exact yields_commaList_succ.2
      ⟨a, _, by simpa using hread, .inr ⟨comma, t.unread us, hkind, by simp, hrest⟩⟩

/-- A list in parentheses. The closing one starts no item, which is how the empty list is told from
the others. -/
theorem items_reads {α : Type} {item : List α → ListParser α} {Item : List Token → α → Prop}
    {Fits : List α → α → Prop} {n : Nat} {kinds starts : List TokenKind}
    (hitem : ∀ before, (item before).Reads (fun ts a => Item ts a ∧ Fits before a) n kinds)
    (hcomma : .comma ∉ kinds) (hright : .rightParen ∉ kinds)
    (hstarts : ∀ {ts a}, Item ts a → Starts starts ts) (hnot : .rightParen ∉ starts)
    {ts : List Token} {as : List α} (h : Separated Item ts as) (hlength : ts.length ≤ n)
    {bound : Nat} (hbound : n ≤ bound) (hfits : Successive Fits [] as) {t : State} {right : Token}
    (hkind : right.kind = .rightParen) :
    (items bound item).Yields (t.unread (ts ++ [right])) as (t.unread [right]) := by
  have havoid : (t.unread [right]).Avoids (.comma :: kinds) :=
    State.avoids_unread_cons.2 (by simpa [hkind] using hright)
  rw [yields_items]
  -- Without items the parenthesis comes first; otherwise an item does.
  cases as with
  | nil =>
    cases h
    exact .inl ⟨fun h => by simp [State.avoids_unread_cons, hkind] at h, rfl, rfl⟩
  | cons a as =>
    have hfirst : Starts starts (ts ++ [right]) := by
      cases h with
      | one ha => exact (hstarts ha).append _
      | more ha => exact ((hstarts ha).append _).append _
    refine .inr ⟨hfirst.avoids fun k hk hmem => hnot (List.mem_singleton.1 hmem ▸ hk), ?_⟩
    simpa using commaList_reads hitem hcomma h hlength (Nat.le_trans hlength hbound) hfits havoid
      (by simp)

/-! ## Expressions -/

/-- A literal is a single token. -/
theorem literalToken_reads {tok : Token} {value : Literal} {t : State} :
    (primary.literalToken tok value).Yields (t.unread [tok]) (.literal value) t := by
  simp only [primary.literalToken, yields_bind]
  exact ⟨_, _, accept_reads (List.mem_singleton_self _), yields_pure.2 ⟨rfl, rfl⟩⟩

/-- A primary expression has an end of its own, so that any token may follow. -/
theorem primary_reads {inner : ListParser Expr} {n : Nat} {kinds : List TokenKind}
    (hinner : inner.Reads Expression n kinds) (hright : .rightParen ∉ kinds) :
    (primary inner).Reads Primary (n + 1) [] := by
  intro ts e t h hlength _
  simp only [primary, yields_bind, yields_peek]
  refine ⟨_, _, ⟨rfl, rfl⟩, ?_⟩
  cases h with
  | @literal tok value hdenotes =>
    have hcurrent : (t.unread [tok]).current = tok := rfl
    rw [hcurrent]
    cases hdenotes with
    | falseWord hkind => simpa only [hkind] using literalToken_reads
    | trueWord hkind => simpa only [hkind] using literalToken_reads
    | nullWord hkind => simpa only [hkind] using literalToken_reads
    | number hkind hvalue => simpa only [hkind, hvalue] using literalToken_reads
    | string hkind hvalue => simpa only [hkind, hvalue] using literalToken_reads
  | @var name hkind =>
    have hcurrent : (t.unread [name]).current = name := rfl
    simp only [hcurrent, hkind, yields_bind]
    exact ⟨_, _, accept_reads (by simp [hkind]), yields_pure.2 ⟨rfl, rfl⟩⟩
  -- Only here is there an expression inside, which the closing parenthesis does not go on with.
  | @group left ts e right hkind hts hright' =>
    have hcurrent : (t.unread (left :: (ts ++ [right]))).current = left := rfl
    simp only [List.length_cons, List.length_append] at hlength
    have hinside := hinner ts e (t.unread [right]) hts (by omega)
      (State.avoids_unread_cons.2 (hright' ▸ hright))
    rw [State.unread_unread] at hinside
    simp only [hcurrent, hkind, yields_bind]
    exact ⟨_, _, accept_reads (by simp [hkind]), e, _, hinside, right, t, expect_reads hright',
      yields_pure.2 ⟨rfl, rfl⟩⟩

/-- An argument list with its parentheses. -/
def ArgumentsIn (us : List Token) (b : List Expr × Token) : Prop :=
  ∃ left as, us = left :: (as ++ [b.2]) ∧ left.kind = .leftParen ∧ Separated Expression as b.1 ∧
    b.1.length ≤ maxItems ∧ b.2.kind = .rightParen

/-- Calls grow to the right from a primary expression. -/
theorem call_leftChain {ts : List Token} {e : Expr} (h : Call ts e) :
    LeftChain Primary ArgumentsIn (fun callee b => .call callee b.2 b.1) ts e := by
  cases h with
  | primary h => exact .first h
  | apply h hleft has hlength hright =>
    exact .step (b := (_, _)) (call_leftChain h) ⟨_, _, rfl, hleft, has, hlength, hright⟩

theorem argumentsIn_starts {us : List Token} {b : List Expr × Token} (h : ArgumentsIn us b) :
    Starts [.leftParen] us := by
  obtain ⟨left, as, rfl, hleft, -⟩ := h
  exact ⟨left, _, rfl, List.mem_singleton.2 hleft⟩

/-- Below the limit, an argument is read as the expression that it is. -/
theorem argument_reads {inner : ListParser Expr} {n : Nat} {kinds : List TokenKind}
    (hinner : inner.Reads Expression n kinds) (before : List Expr) :
    (argument inner before).Reads
      (fun ts e => Expression ts e ∧ before.length < maxArguments) n kinds := by
  intro ts e t ⟨hts, hlt⟩ hlength ht
  simp only [argument, yields_ite]
  exact .inr ⟨Nat.not_le.2 hlt, hinner ts e t hts hlength ht⟩

/-- The arguments of a call, behind any callee. -/
theorem arguments_reads {inner : ListParser Expr} {n bound : Nat} {kinds : List TokenKind}
    (hinner : inner.Reads Expression n kinds) (hcomma : .comma ∉ kinds)
    (hright : .rightParen ∉ kinds) (hbound : n ≤ bound) {us : List Token} {b : List Expr × Token}
    (h : ArgumentsIn us b) (hlength : us.length ≤ n + 1) (t : State) :
    (arguments bound inner).Yields (t.unread us) (some b) t := by
  obtain ⟨args, right⟩ := b
  obtain ⟨left, as, rfl, hleft, has, hcount, hkind⟩ := h
  simp only [List.length_cons, List.length_append] at hlength
  -- That each argument has fewer than the limit before it is what the number of all arguments says.
  have hargs := items_reads (argument_reads hinner) hcomma hright expression_starts (by decide) has
    (by omega) hbound ((successive_length (Nat.zero_le _)).2 hcount) hkind (t := t)
  simp only [arguments, yields_bind]
  refine ⟨some left, _, accept_reads (List.mem_singleton.2 hleft), ?_⟩
  simp only [yields_bind]
  exact ⟨args, _, hargs, right, t, expect_reads hkind, yields_pure.2 ⟨rfl, rfl⟩⟩

theorem arguments_reads_none {inner : ListParser Expr} {bound : Nat} {t : State}
    (ht : t.Avoids [.leftParen]) : (arguments bound inner).Yields t none t := by
  simp only [arguments, yields_bind]
  exact ⟨none, t, yields_accept_none.2 ⟨ht, rfl⟩, yields_pure.2 ⟨rfl, rfl⟩⟩

/-- A call ends where no further parenthesis opens. -/
theorem call_reads {inner : ListParser Expr} {n bound : Nat} {kinds : List TokenKind}
    (hinner : inner.Reads Expression n kinds) (hcomma : .comma ∉ kinds)
    (hright : .rightParen ∉ kinds) (hbound : n + 1 ≤ bound) :
    (call bound inner).Reads Call (n + 1) [.leftParen] := by
  intro ts e t h hlength ht
  -- The steps end with a parenthesis of their own, so that nothing is asked of what follows them.
  have hsteps : ∀ us b t, ArgumentsIn us b → us.length ≤ n + 1 → t.Avoids [] →
      (arguments bound inner).Yields (t.unread us) (some b) t :=
    fun us b t hb hus _ =>
      arguments_reads hinner hcomma hright (Nat.le_of_succ_le hbound) hb hus t
  obtain ⟨callee, u, calls, hcallee, hcalls, rfl⟩ := (call_leftChain h).yields_many
    (primary_reads hinner hright) hsteps (fun h => (primary_starts h).length_pos)
    argumentsIn_starts (by simp) hlength (ht.mono (by simp)) (arguments_reads_none ht) hbound
  simp only [call, yields_bind]
  exact ⟨callee, u, hcallee, calls, t, hcalls, yields_pure.2 ⟨rfl, rfl⟩⟩

/-- Operators in front of a call, taken off one by one. -/
theorem unary_eq_foldr {ts : List Token} {e : Expr} (h : Unary ts e) :
    ∃ ops us callee, ts = ops ++ us ∧ (∀ op ∈ ops, op.kind ∈ [TokenKind.bang, .minus]) ∧
      Call us callee ∧ e = ops.foldr Expr.unary callee := by
  cases h with
  | operator hop h =>
    obtain ⟨ops, us, callee, rfl, hops, hcall, rfl⟩ := unary_eq_foldr h
    refine ⟨_ :: ops, us, callee, rfl, ?_, hcall, rfl⟩
    simpa using ⟨hop, by simpa using hops⟩
  | call h => exact ⟨[], _, _, rfl, by simp, h, rfl⟩

theorem rounds_accept {kinds : List TokenKind} {ops : List Token} {t : State}
    (hops : ∀ op ∈ ops, op.kind ∈ kinds) (ht : t.Avoids kinds) :
    Rounds (accept kinds) (t.unread ops) ops t := by
  induction ops with
  | nil => exact .nil (yields_accept_none.2 ⟨ht, rfl⟩)
  | cons op ops ih =>
    exact .cons (accept_reads (hops op (by simp)))
      (ih fun op' hmem => hops op' (List.mem_cons_of_mem _ hmem))

/-- Operators nest to the right, while the parser collects them from the left. -/
theorem unary_reads {inner : ListParser Expr} {n bound : Nat} {kinds : List TokenKind}
    (hinner : inner.Reads Expression n kinds) (hcomma : .comma ∉ kinds)
    (hright : .rightParen ∉ kinds) (hbound : n + 1 ≤ bound) :
    (unary bound inner).Reads Unary (n + 1) [.leftParen] := by
  intro ts e t h hlength ht
  obtain ⟨ops, us, callee, rfl, hops, hcall, rfl⟩ := unary_eq_foldr h
  rw [List.length_append] at hlength
  -- The operators end where the call starts, since no call starts with one.
  have hrounds := rounds_accept hops ((call_starts hcall).avoids (s := t) (by decide))
  have hcallee := call_reads hinner hcomma hright hbound us callee t hcall (by omega) ht
  rw [State.unread_unread] at hrounds
  simp only [unary, yields_bind]
  exact ⟨ops, _, hrounds.yields_many (by omega), callee, t, hcallee, yields_pure.2 ⟨rfl, rfl⟩⟩

/-- The kinds of the tokens that go on with an expression of a tier. -/
def continuing : Option Tier → List TokenKind
  | none => [.leftParen]
  | some .factor => Tier.factor.operators ++ [.leftParen]
  | some .term => Tier.term.operators ++ (Tier.factor.operators ++ [.leftParen])
  | some .comparison =>
    Tier.comparison.operators ++ (Tier.term.operators ++ (Tier.factor.operators ++ [.leftParen]))
  | some .equality =>
    Tier.equality.operators ++ (Tier.comparison.operators ++ (Tier.term.operators ++
      (Tier.factor.operators ++ [.leftParen])))
  | some .and =>
    Tier.and.operators ++ (Tier.equality.operators ++ (Tier.comparison.operators ++
      (Tier.term.operators ++ (Tier.factor.operators ++ [.leftParen]))))
  | some .or =>
    Tier.or.operators ++ (Tier.and.operators ++ (Tier.equality.operators ++
      (Tier.comparison.operators ++ (Tier.term.operators ++
        (Tier.factor.operators ++ [.leftParen])))))

/-- What goes on with a tier is its operators and what goes on with the tier below. -/
theorem continuing_some (tier : Tier) :
    continuing (some tier) = tier.operators ++ continuing tier.tighter? := by
  cases tier <;> rfl

/-- An operator belongs to one tier only, so that it ends the operands of its own tier. -/
theorem operators_not_continuing (tier : Tier) :
    ∀ k ∈ tier.operators, k ∉ continuing tier.tighter? := by
  cases tier <;> decide

/-- An operator of a tier and its right operand. -/
def OperationIn (tier : Tier) (us : List Token) (b : Token × Expr) : Prop :=
  ∃ rs, us = b.1 :: rs ∧ b.1.kind ∈ tier.operators ∧ Operand tier.tighter? rs b.2

/-- The operations of one tier grow to the right, and their right operands are of the next tier. -/
theorem operand_leftChain {tier : Tier} {t : Option Tier} {ts : List Token} {e : Expr} :
    Operand t ts e → t = some tier →
    LeftChain (Operand tier.tighter?) (OperationIn tier) (fun l b => tier.node l b.1 b.2) ts e
  | .tighter h, rfl => .first h
  | .binary h hop hr, rfl => .step (b := (_, _)) (operand_leftChain h rfl) ⟨_, rfl, hop, hr⟩

/-- An operator of the tier and its right operand. -/
theorem operation_reads {tier : Tier} {operand : ListParser Expr} {n : Nat}
    (hoperand : operand.Reads (Operand tier.tighter?) n (continuing tier.tighter?))
    {us : List Token} {b : Token × Expr} {t : State} (h : OperationIn tier us b)
    (hlength : us.length ≤ n) (ht : t.Avoids (continuing tier.tighter?)) :
    (operation tier.operators operand).Yields (t.unread us) (some b) t := by
  obtain ⟨op, r⟩ := b
  obtain ⟨rs, rfl, hop, hr⟩ := h
  simp only [operation, yields_bind]
  refine ⟨some op, _, accept_reads hop, ?_⟩
  simp only [yields_bind]
  exact ⟨r, t, hoperand rs r t hr (Nat.le_of_succ_le hlength) ht, yields_pure.2 ⟨rfl, rfl⟩⟩

theorem operation_reads_none {kinds : List TokenKind} {operand : ListParser Expr} {t : State}
    (ht : t.Avoids kinds) : (operation kinds operand).Yields t none t := by
  simp only [operation, yields_bind]
  exact ⟨none, t, yields_accept_none.2 ⟨ht, rfl⟩, yields_pure.2 ⟨rfl, rfl⟩⟩

/-- One tier of operators: the chain of its operations, each followed by an operator of the tier or
by the end. -/
theorem level_reads (tier : Tier) {operand : ListParser Expr} {n bound : Nat}
    (hoperand : operand.Reads (Operand tier.tighter?) n (continuing tier.tighter?))
    (hbound : n ≤ bound) :
    ((level tier).expression bound operand).Reads (Operand (some tier)) n
      (continuing (some tier)) := by
  intro ts e t h hlength ht
  rw [continuing_some] at ht
  have hsteps : ∀ us b t, OperationIn tier us b → us.length ≤ n →
      t.Avoids (continuing tier.tighter?) →
      (operation tier.operators operand).Yields (t.unread us) (some b) t :=
    fun us b t hb hus ht => operation_reads hoperand hb hus ht
  have hstarts : ∀ {us b}, OperationIn tier us b → Starts tier.operators us :=
    fun ⟨rs, heq, hop, _⟩ => ⟨_, rs, heq, hop⟩
  obtain ⟨first, u, rest, hfirst, hrest, rfl⟩ := (operand_leftChain h rfl).yields_many hoperand
    hsteps (fun h => (operand_starts h).length_pos) hstarts (operators_not_continuing tier) hlength
    (ht.mono (List.subset_append_right _ _))
    (operation_reads_none (ht.mono (List.subset_append_left _ _))) hbound
  simp only [Level.expression, level, yields_bind]
  exact ⟨first, u, hfirst, rest, t, hrest, yields_pure.2 ⟨rfl, rfl⟩⟩

/-- All tiers, from the innermost one outwards. -/
theorem operations_reads {inner : ListParser Expr} {n bound : Nat} {kinds : List TokenKind}
    (hinner : inner.Reads Expression n kinds) (hcomma : .comma ∉ kinds)
    (hright : .rightParen ∉ kinds) (hbound : n + 1 ≤ bound) :
    (operations bound inner).Reads (Operand (some .or)) (n + 1) (continuing (some .or)) := by
  have hunary : (unary bound inner).Reads (Operand none) (n + 1) (continuing none) := by
    intro ts e t h hlength ht
    cases h with
    | unary h => exact unary_reads hinner hcomma hright hbound ts e t h hlength ht
  exact level_reads .or (level_reads .and (level_reads .equality (level_reads .comparison
    (level_reads .term (level_reads .factor hunary hbound) hbound) hbound) hbound) hbound) hbound

/-- The kinds of the tokens that go on with an expression. -/
def expressionContinuing : List TokenKind :=
  .equal :: continuing (some .or)

/-- One step of the induction for expressions. -/
theorem assignment_reads {inner : ListParser Expr} {n bound : Nat}
    (hinner : inner.Reads Expression n expressionContinuing) (hbound : n + 1 ≤ bound) :
    (assignment bound inner).Reads Expression (n + 1) expressionContinuing := by
  have hoperations := operations_reads hinner (by decide) (by decide) hbound
  intro ts e t h hlength ht
  simp only [assignment, yields_bind]
  cases h with
  | operation h =>
    have hread := hoperations ts e t h hlength (ht.mono (List.subset_cons_self _ _))
    refine ⟨e, t, hread, none, t, ?_, ?_⟩
    · exact yields_accept_none.2 ⟨ht.mono (by simp [expressionContinuing]), rfl⟩
    · exact yields_pure.2 ⟨rfl, rfl⟩
  | @assign name equals ts value hname hequals hvalue =>
    -- The name alone is read as an expression without an assignment, up to the equals sign.
    have hnamed : Operand (some .or) [name] (.var name) :=
      .tighter (.tighter (.tighter (.tighter (.tighter (.tighter
        (.unary (.call (.primary (.var hname)))))))))
    have htarget := hoperations [name] _ (t.unread (equals :: ts)) hnamed (by simp)
      (State.avoids_unread_cons.2 (by rw [hequals]; decide))
    simp only [List.length_cons] at hlength
    refine ⟨_, _, by simpa using htarget, some equals, _,
      accept_reads (List.mem_singleton.2 hequals), ?_⟩
    simp only [yields_bind]
    exact ⟨value, t, hinner ts value t hvalue (by omega) ht, yields_pure.2 ⟨rfl, rfl⟩⟩

/-- Every expression of at most `n` tokens is read cleanly. -/
theorem expression_reads (n : Nat) :
    (expression n).Reads Expression n expressionContinuing := by
  induction n with
  | zero =>
    -- No expression is without tokens.
    intro ts e t h hlength
    have := (expression_starts h).length_pos
    omega
  | succ n ih => exact assignment_reads ih (Nat.le_refl _)

/-! ## Statements -/

/-- Statements of at most `n` tokens are read cleanly, unless an `else` follows that belongs to
them. -/
def ReadsStatements (p : ListParser Stmt) (n : Nat) : Prop :=
  ∀ d ts a t, Statement t.inFunction d ts a → ts.length ≤ n →
    (d = true → t.Avoids [.elseWord]) → p.Yields (t.unread ts) a t

/-- Declarations of at most `n` tokens are read cleanly, unless an `else` follows. -/
def ReadsDeclarations (p : ListParser (Option Stmt)) (n : Nat) : Prop :=
  ∀ ts a t, Declaration t.inFunction ts a → ts.length ≤ n → t.Avoids [.elseWord] →
    p.Yields (t.unread ts) (some a) t

section
variable {E : ListParser Expr} {S : ListParser Stmt} {D : ListParser (Option Stmt)} {n : Nat}
  {t : State}

/-- An expression is read in front of a token that does not go on with it. -/
theorem Reads.before (hE : E.Reads Expression n expressionContinuing) {ts us : List Token}
    {e : Expr} {tok : Token} {kind : TokenKind} (h : Expression ts e) (hlength : ts.length ≤ n)
    (htok : tok.kind = kind) (hkind : kind ∉ expressionContinuing) :
    E.Yields (t.unread (ts ++ tok :: us)) e (t.unread (tok :: us)) := by
  have hread := hE ts e (t.unread (tok :: us)) h hlength
    (State.avoids_unread_cons.2 (htok ▸ hkind))
  simpa using hread

/-- The semicolon does not go on with an expression, so that the expression ends there. -/
theorem expressionStatement_reads (hE : E.Reads Expression n expressionContinuing)
    {ts : List Token} {e : Expr} {semicolon : Token} (h : Expression ts e)
    (hsemicolon : semicolon.kind = .semicolon) (hlength : ts.length ≤ n) :
    (expressionStatement E).Yields (t.unread (ts ++ [semicolon])) (.expr e) t := by
  simp only [expressionStatement, yields_bind]
  exact ⟨e, _, hE.before h hlength hsemicolon (by decide), semicolon, t, expect_reads hsemicolon,
    yields_pure.2 ⟨rfl, rfl⟩⟩

/-- The word itself has been read already where this parser starts. -/
theorem varDeclaration_reads (hE : E.Reads Expression n expressionContinuing) {ts : List Token}
    {a : Stmt} (h : Variable ts a) (hlength : ts.length ≤ n) :
    ∃ word us, ts = word :: us ∧ word.kind = .varWord ∧
      (varDeclaration E).Yields (t.unread us) a t := by
  cases h with
  | @bare word name semicolon hword hname hsemicolon =>
    refine ⟨word, [name, semicolon], rfl, hword, ?_⟩
    simp only [varDeclaration, yields_bind]
    refine ⟨name, _, expect_reads hname, none, _, yields_accept_none.2 ⟨?_, rfl⟩, ?_⟩
    · exact State.avoids_unread_cons.2 (by simp [hsemicolon])
    · simp only [yields_bind]
      exact ⟨none, _, yields_pure.2 ⟨rfl, rfl⟩, semicolon, t, expect_reads hsemicolon,
        yields_pure.2 ⟨rfl, rfl⟩⟩
  | @initialized word name equals ts e semicolon hword hname hequals he hsemicolon =>
    simp only [List.length_cons, List.length_append] at hlength
    refine ⟨word, name :: equals :: (ts ++ [semicolon]), rfl, hword, ?_⟩
    simp only [varDeclaration, yields_bind]
    refine ⟨name, _, expect_reads hname, some equals, _,
      accept_reads (List.mem_singleton.2 hequals), ?_⟩
    simp only [yields_bind, yields_map]
    exact ⟨some e, _, ⟨e, hE.before he (by omega) hsemicolon (by decide), rfl⟩, semicolon, t,
      expect_reads hsemicolon, yields_pure.2 ⟨rfl, rfl⟩⟩

/-- A clause is absent if the token that ends it comes first, which no expression starts with. -/
theorem clause_reads (hE : E.Reads Expression n expressionContinuing) {ts us : List Token}
    {o : Option Expr} {tok : Token} {stop : TokenKind} (h : Clause ts o) (hlength : ts.length ≤ n)
    (htok : tok.kind = stop) (hstop : stop ∉ expressionContinuing)
    (hstart : stop ∉ expressionStarts) :
    (clause stop E).Yields (t.unread (ts ++ tok :: us)) o (t.unread (tok :: us)) := by
  simp only [clause, yields_bind, yields_ite, yields_check, yields_map]
  cases h with
  | absent =>
    refine ⟨true, _, ⟨?_, rfl⟩, .inl ⟨rfl, yields_pure.2 ⟨rfl, rfl⟩⟩⟩
    simp [State.avoids_unread_cons, htok]
  | @present _ e h =>
    have havoid : (t.unread (ts ++ tok :: us)).Avoids [stop] :=
      ((expression_starts h).append _).avoids fun k hk hmem =>
        hstart (List.mem_singleton.1 hmem ▸ hk)
    exact ⟨false, _, ⟨by simp [havoid], rfl⟩, .inr ⟨by simp, e,
      hE.before h hlength htok hstop, rfl⟩⟩

/-- The first clause of a for statement brings its own semicolon. -/
theorem initializer_reads (hE : E.Reads Expression n expressionContinuing) {ts : List Token}
    {o : Option Stmt} (h : Initializer ts o) (hlength : ts.length ≤ n) :
    (initializer E).Yields (t.unread ts) o t := by
  simp only [initializer, yields_bind]
  cases h with
  | @absent semicolon hsemicolon =>
    refine ⟨some semicolon, t, accept_reads (by simp [hsemicolon]), ?_⟩
    exact yields_ite.2 (.inl ⟨hsemicolon, yields_pure.2 ⟨rfl, rfl⟩⟩)
  | var h =>
    obtain ⟨word, us, rfl, hword, hread⟩ := varDeclaration_reads (t := t) hE h hlength
    refine ⟨some word, t.unread us, accept_reads (by simp [hword]), ?_⟩
    exact yields_ite.2 (.inr ⟨by simp [hword], yields_map.2 ⟨_, hread, rfl⟩⟩)
  | @expression ts e semicolon h hsemicolon =>
    rw [List.length_append] at hlength
    have havoid : (t.unread (ts ++ [semicolon])).Avoids [.semicolon, .varWord] :=
      ((expression_starts h).append _).avoids (by decide)
    exact ⟨none, _, yields_accept_none.2 ⟨havoid, rfl⟩, yields_map.2
      ⟨_, expressionStatement_reads hE h hsemicolon (by omega), rfl⟩⟩

/-- An if statement without `else`, which therefore must not follow. -/
theorem branch_reads (hE : E.Reads Expression n expressionContinuing) (hS : S.ReadsStatements n)
    {d : Bool} {left right : Token} {cs ts : List Token} {cond : Expr} {s : Stmt}
    (hleft : left.kind = .leftParen) (hcs : Expression cs cond) (hright : right.kind = .rightParen)
    (hts : Statement t.inFunction d ts s) (hcsLength : cs.length ≤ n) (htsLength : ts.length ≤ n)
    (ht : t.Avoids [.elseWord]) :
    (ifStatement E S).Yields (t.unread (left :: (cs ++ right :: ts))) (.branch cond s none) t := by
  simp only [ifStatement, yields_bind]
  refine ⟨left, _, expect_reads hleft, cond, _, hE.before hcs hcsLength hright (by decide), right,
    _, expect_reads hright, s, t, hS d ts s t hts htsLength fun _ => ht, none, t,
    yields_accept_none.2 ⟨ht, rfl⟩, ?_⟩
  simp only [yields_bind]
  exact ⟨none, t, yields_pure.2 ⟨rfl, rfl⟩, yields_pure.2 ⟨rfl, rfl⟩⟩

/-- An if statement with `else`. Its first branch must be one that takes none. -/
theorem branchElse_reads (hE : E.Reads Expression n expressionContinuing)
    (hS : S.ReadsStatements n) {d : Bool} {left right other : Token} {cs ts us : List Token}
    {cond : Expr} {s s' : Stmt} (hleft : left.kind = .leftParen) (hcs : Expression cs cond)
    (hright : right.kind = .rightParen) (hts : Statement t.inFunction false ts s)
    (hother : other.kind = .elseWord) (hus : Statement t.inFunction d us s')
    (hcsLength : cs.length ≤ n) (htsLength : ts.length ≤ n) (husLength : us.length ≤ n)
    (ht : d = true → t.Avoids [.elseWord]) :
    (ifStatement E S).Yields (t.unread (left :: (cs ++ right :: (ts ++ other :: us))))
      (.branch cond s (some s')) t := by
  -- The first branch takes no `else`, so that the one behind it does no harm.
  have hbranch := hS false ts s (t.unread (other :: us)) hts htsLength (by simp)
  simp only [ifStatement, yields_bind]
  refine ⟨left, _, expect_reads hleft, cond, _, hE.before hcs hcsLength hright (by decide), right,
    _, expect_reads hright, s, _, by simpa using hbranch, some other, t.unread us,
    accept_reads (List.mem_singleton.2 hother), ?_⟩
  simp only [yields_bind, yields_map]
  exact ⟨some s', t, ⟨s', hS d us s' t hus husLength ht, rfl⟩, yields_pure.2 ⟨rfl, rfl⟩⟩

theorem whileStatement_reads (hE : E.Reads Expression n expressionContinuing)
    (hS : S.ReadsStatements n) {d : Bool} {left right : Token} {cs ts : List Token} {cond : Expr}
    {s : Stmt} (hleft : left.kind = .leftParen) (hcs : Expression cs cond)
    (hright : right.kind = .rightParen) (hts : Statement t.inFunction d ts s)
    (hcsLength : cs.length ≤ n) (htsLength : ts.length ≤ n)
    (ht : d = true → t.Avoids [.elseWord]) :
    (whileStatement E S).Yields (t.unread (left :: (cs ++ right :: ts))) (.loop cond s) t := by
  simp only [whileStatement, yields_bind]
  exact ⟨left, _, expect_reads hleft, cond, _, hE.before hcs hcsLength hright (by decide), right, _,
    expect_reads hright, s, t, hS d ts s t hts htsLength ht, yields_pure.2 ⟨rfl, rfl⟩⟩

/-- The clauses are read in the order in which they are written, and put together in another one. -/
theorem forStatement_reads (hE : E.Reads Expression n expressionContinuing)
    (hS : S.ReadsStatements n) {d : Bool} {left semicolon right : Token}
    {fs cs is ts : List Token} {first : Option Stmt} {cond increment : Option Expr} {s : Stmt}
    (hleft : left.kind = .leftParen) (hfs : Initializer fs first) (hcs : Clause cs cond)
    (hsemicolon : semicolon.kind = .semicolon) (his : Clause is increment)
    (hright : right.kind = .rightParen) (hts : Statement t.inFunction d ts s)
    (hfsLength : fs.length ≤ n) (hcsLength : cs.length ≤ n) (hisLength : is.length ≤ n)
    (htsLength : ts.length ≤ n) (ht : d = true → t.Avoids [.elseWord]) :
    (forStatement E S).Yields
      (t.unread (left :: (fs ++ (cs ++ semicolon :: (is ++ right :: ts)))))
      (loopForm cond s first increment) t := by
  -- The initializer is given with all that follows it, because it ends with a semicolon of its own.
  have hfirst := initializer_reads hE hfs hfsLength
    (t := t.unread (cs ++ semicolon :: (is ++ right :: ts)))
  rw [loopForm_eq_forLoop]
  simp only [forStatement, yields_bind]
  exact ⟨left, _, expect_reads hleft, first, _, by simpa using hfirst, cond, _,
    clause_reads hE hcs hcsLength hsemicolon (by decide) (by decide), semicolon, _,
    expect_reads hsemicolon, increment, _,
    clause_reads hE his hisLength hright (by decide) (by decide), right, _, expect_reads hright, s,
    t, hS d ts s t hts htsLength ht, yields_pure.2 ⟨rfl, rfl⟩⟩

theorem printStatement_reads (hE : E.Reads Expression n expressionContinuing) {ts : List Token}
    {e : Expr} {semicolon : Token} (h : Expression ts e)
    (hsemicolon : semicolon.kind = .semicolon) (hlength : ts.length ≤ n) :
    (printStatement E).Yields (t.unread (ts ++ [semicolon])) (.print e) t := by
  simp only [printStatement, yields_bind]
  exact ⟨e, _, hE.before h hlength hsemicolon (by decide), semicolon, t, expect_reads hsemicolon,
    yields_pure.2 ⟨rfl, rfl⟩⟩

theorem returnStatement_reads (hE : E.Reads Expression n expressionContinuing) {ts : List Token}
    {value : Option Expr} {word semicolon : Token} (h : Clause ts value)
    (hsemicolon : semicolon.kind = .semicolon) (hlength : ts.length ≤ n)
    (ht : t.inFunction = true) :
    (returnStatement E word).Yields (t.unread (ts ++ [semicolon])) (.ret word value) t := by
  simp only [returnStatement, yields_bind, yields_ite, yields_inFunction]
  refine ⟨true, _, ⟨ht, rfl⟩, .inr ⟨by simp, value, _,
    clause_reads hE h hlength hsemicolon (by decide) (by decide), semicolon, t,
    expect_reads hsemicolon, yields_pure.2 ⟨rfl, rfl⟩⟩⟩

/-! ## Declarations -/

/-- The kinds of the tokens that a statement can start with. -/
def statementStarts : List TokenKind :=
  [.printWord, .returnWord, .leftBrace, .ifWord, .whileWord, .forWord] ++ expressionStarts

/-- The kinds of the tokens that a declaration can start with. -/
def declarationStarts : List TokenKind :=
  [.funWord, .varWord] ++ statementStarts

theorem statement_starts {fn d : Bool} {ts : List Token} {s : Stmt} (h : Statement fn d ts s) :
    Starts statementStarts ts := by
  cases h with
  | expr h =>
    exact ((expression_starts h).append _).mono (List.subset_append_right _ _)
  | print hword | ret hword | block hword | branch hword | branchElse hword | loop hword
  | forLoop hword => exact ⟨_, _, rfl, by simp [statementStarts, hword]⟩

theorem declaration_starts {fn : Bool} {ts : List Token} {s : Stmt} (h : Declaration fn ts s) :
    Starts declarationStarts ts := by
  cases h with
  | function hword => exact ⟨_, _, rfl, by simp [declarationStarts, hword]⟩
  | var h => cases h <;> exact ⟨_, _, rfl, by simp [declarationStarts, *]⟩
  | statement h => exact (statement_starts h).mono (List.subset_append_right _ _)

/-- Declarations are read in rounds, if what follows them ends the rounds. -/
theorem declarations_rounds (hD : D.ReadsDeclarations n) {next : ListParser (Option (Option Stmt))}
    (hnext : ∀ {s a t}, s.Avoids [.rightBrace] → s.rest ≠ [] → D.Yields s (some a) t →
      next.Yields s (some (some a)) t)
    (hend : next.Yields t none t) (ht : t.Avoids [.elseWord]) {fn : Bool} {ts : List Token}
    {ss : List Stmt} (hts : Declarations fn ts ss) (hfn : t.inFunction = fn)
    (hlength : ts.length ≤ n) :
    Rounds next (t.unread ts) (ss.map some) t ∧ ss.length ≤ ts.length :=
  match hts with
  | .nil => ⟨.nil hend, Nat.le_refl _⟩
  | @Declarations.cons _ ts s us ss hs hss => by
    rw [List.length_append] at hlength
    obtain ⟨hrounds, hcount⟩ := declarations_rounds hD hnext hend ht hss hfn (by omega)
    have hstart := declaration_starts hs
    have hpos := hstart.length_pos
    refine ⟨.cons (hnext ((hstart.append us).avoids (by decide)) ?_ ?_) hrounds, ?_⟩
    · rw [State.unread_rest]
      obtain ⟨tok, rest, rfl, -⟩ := hstart
      simp
    · -- Behind this declaration stands the next one or the end, and no `else` starts either.
      have havoid : (t.unread us).Avoids [.elseWord] := by
        cases hss with
        | nil => exact ht
        | cons hs' _ => exact ((declaration_starts hs').append _).avoids (by decide)
      simpa using hD ts s (t.unread us) (by simpa [hfn] using hs) (by omega) havoid
    · simp only [List.length_cons, List.length_append]
      omega

/-- The declarations of a block end at its brace, which starts no declaration. -/
theorem block_reads (hD : D.ReadsDeclarations n) {bound : Nat} (hbound : n ≤ bound)
    {ts : List Token} {body : List Stmt} {right : Token} (h : Declarations t.inFunction ts body)
    (hright : right.kind = .rightBrace) (hlength : ts.length ≤ n) :
    (block bound D).Yields (t.unread (ts ++ [right])) body t := by
  -- In front of anything but a brace one more declaration is read.
  have hnext : ∀ {s a t}, s.Avoids [.rightBrace] → s.rest ≠ [] → D.Yields s (some a) t →
      (declarations.next D).Yields s (some (some a)) t := by
    intro s a t havoid hrest ha
    simp only [declarations.next, yields_bind, yields_ite, yields_atEnd, yields_check, yields_map]
    exact ⟨false, s, ⟨by simpa using hrest, rfl⟩, false, s, ⟨by simp [havoid], rfl⟩,
      .inr ⟨by simp, some a, ha, rfl⟩⟩
  -- At the brace nothing more is found.
  have hend : (declarations.next D).Yields (t.unread [right]) none (t.unread [right]) := by
    simp only [declarations.next, yields_bind, yields_ite, yields_atEnd, yields_check]
    exact ⟨false, _, ⟨rfl, rfl⟩, true, _, ⟨by simp [State.avoids_unread_cons, hright], rfl⟩,
      .inl ⟨rfl, yields_pure.2 ⟨rfl, rfl⟩⟩⟩
  obtain ⟨hrounds, hcount⟩ := declarations_rounds hD hnext hend
    (State.avoids_unread_cons.2 (by simp [hright])) h rfl hlength
  rw [State.unread_unread] at hrounds
  have hmany : (many (declarations.next D) bound).Yields (t.unread (ts ++ [right]))
      (body.map some) (t.unread [right]) :=
    hrounds.yields_many (by rw [List.length_map]; omega)
  simp only [block, declarations, yields_bind]
  exact ⟨body, _, ⟨body.map some, _, hmany, yields_pure.2 ⟨by simp, rfl⟩⟩, right, t,
    expect_reads hright, yields_pure.2 ⟨rfl, rfl⟩⟩

/-- A name that none of those before has, within the limit, is read without a report. -/
theorem parameter_reads (before : List Token) :
    (parameter before).Reads (fun ts name => Parameter ts name ∧ before.length < maxArguments ∧
      name.lexeme ∉ before.map Token.lexeme) n [] := by
  intro ts name t ⟨hname, hlt, hnew⟩ _ _
  cases hname with
  | name hkind =>
    simp only [parameter, yields_ite, yields_bind]
    refine .inr ⟨Nat.not_le.2 hlt, name, t, expect_reads hkind, .inr ⟨fun hany => ?_, ?_⟩⟩
    · obtain ⟨p, hp, heq⟩ := List.any_eq_true.1 hany
      exact hnew (List.mem_map.2 ⟨p, hp, beq_iff_eq.1 heq⟩)
    · exact yields_pure.2 ⟨rfl, rfl⟩

/-- A function, with the word that starts it read already. -/
theorem funDeclaration_reads (hD : D.ReadsDeclarations n) {bound : Nat} (hbound : n ≤ bound)
    {name left right opening closing : Token} {ps params ts : List Token} {body : List Stmt}
    (hname : name.kind = .identifier) (hleft : left.kind = .leftParen)
    (hps : Separated Parameter ps params) (hcount : params.length ≤ maxItems)
    (hnames : (params.map Token.lexeme).Nodup) (hright : right.kind = .rightParen)
    (hopening : opening.kind = .leftBrace) (hts : Declarations true ts body)
    (hclosing : closing.kind = .rightBrace) (hpsLength : ps.length ≤ n)
    (htsLength : ts.length ≤ n) :
    (funDeclaration bound D).Yields
      (t.unread (name :: left :: (ps ++ right :: opening :: (ts ++ [closing]))))
      (.function name params body) t := by
  have hnil : (([] : List Token).map Token.lexeme).Nodup := List.nodup_nil
  have hstarts : ∀ {ts name}, Parameter ts name → Starts [.identifier] ts := by
    intro ts name h
    cases h with
    | name hkind => exact ⟨name, [], rfl, List.mem_singleton.2 hkind⟩
  -- Each name is new and within the limit, because all names differ and are not too many.
  have hparams := items_reads parameter_reads (by simp) (by simp) hstarts (by decide) hps hpsLength
    hbound (successive_and.2 ⟨(successive_length (Nat.zero_le _)).2 hcount,
      (successive_nodup hnil).2 hnames⟩) hright
    (t := t.unread (opening :: (ts ++ [closing])))
  -- The body is read in the marked state, as the grammar wants its statements in a function.
  have hbody := block_reads hD hbound (t := t.within true) hts hclosing htsLength
  simp only [funDeclaration, yields_bind]
  refine ⟨name, _, expect_reads hname, left, _, expect_reads hleft, params, _,
    by simpa using hparams, right, _, by simpa using expect_reads hright, opening, _,
    expect_reads hopening, body, t, ?_, yields_pure.2 ⟨rfl, rfl⟩⟩
  exact yields_withinFunction.2 ⟨t.within true, hbody, rfl⟩

/-- One step of the induction for statements. -/
theorem statementOf_reads (hS : S.ReadsStatements n) (hD : D.ReadsDeclarations n) :
    (statementOf (n + 1) S D).ReadsStatements (n + 1) := by
  have hE := (expression_reads (n + 1)).mono (Nat.le_succ n)
  intro d ts a t h hlength ht
  simp only [statementOf, yields_bind]
  -- Reading the word that starts a statement decides how its rest is read.
  have hword : ∀ {word us}, word.kind ∈ statementWords →
      (accept statementWords).Yields (t.unread (word :: us)) (some word) (t.unread us) :=
    fun hmem => accept_reads hmem
  -- The cases are on a derivation, whose first index has to be a variable.
  generalize hfn : t.inFunction = fn at h
  cases h with
  | @expr _ ts e semicolon h hsemicolon =>
    rw [List.length_append] at hlength
    have havoid : (t.unread (ts ++ [semicolon])).Avoids statementWords :=
      ((expression_starts h).append _).avoids (by decide)
    exact ⟨none, _, yields_accept_none.2 ⟨havoid, rfl⟩,
      expressionStatement_reads hE h hsemicolon (Nat.le_of_succ_le_succ hlength)⟩
  | print hkind h hsemicolon =>
    simp only [List.length_cons, List.length_append] at hlength
    refine ⟨_, _, hword (by simp [statementWords, hkind]), ?_⟩
    simp only [hkind]
    exact printStatement_reads hE h hsemicolon (by omega)
  | ret hkind h hsemicolon =>
    simp only [List.length_cons, List.length_append] at hlength
    refine ⟨_, _, hword (by simp [statementWords, hkind]), ?_⟩
    simp only [hkind]
    exact returnStatement_reads hE h hsemicolon (by omega) hfn
  | block hkind h hright =>
    simp only [List.length_cons, List.length_append] at hlength
    refine ⟨_, _, hword (by simp [statementWords, hkind]), ?_⟩
    simp only [hkind, yields_map]
    exact ⟨_, block_reads hD (Nat.le_succ n) (hfn ▸ h) hright (by omega), rfl⟩
  | branch hkind hleft hcs hright hts =>
    simp only [List.length_cons, List.length_append] at hlength
    refine ⟨_, _, hword (by simp [statementWords, hkind]), ?_⟩
    simp only [hkind]
    exact branch_reads hE hS hleft hcs hright (hfn ▸ hts) (by omega) (by omega) (ht rfl)
  | branchElse hkind hleft hcs hright hts hother hus =>
    simp only [List.length_cons, List.length_append] at hlength
    refine ⟨_, _, hword (by simp [statementWords, hkind]), ?_⟩
    simp only [hkind]
    exact branchElse_reads hE hS hleft hcs hright (hfn ▸ hts) hother (hfn ▸ hus) (by omega)
      (by omega) (by omega) ht
  | loop hkind hleft hcs hright hts =>
    simp only [List.length_cons, List.length_append] at hlength
    refine ⟨_, _, hword (by simp [statementWords, hkind]), ?_⟩
    simp only [hkind]
    exact whileStatement_reads hE hS hleft hcs hright (hfn ▸ hts) (by omega) (by omega) ht
  | forLoop hkind hleft hfs hcs hsemicolon his hright hts =>
    simp only [List.length_cons, List.length_append] at hlength
    refine ⟨_, _, hword (by simp [statementWords, hkind]), ?_⟩
    simp only [hkind]
    exact forStatement_reads hE hS hleft hfs hcs hsemicolon his hright (hfn ▸ hts) (by omega)
      (by omega) (by omega) (by omega) ht

/-- One step of the induction for declarations. Nothing has to be recovered from. -/
theorem declarationOf_reads (hS : S.ReadsStatements n) (hD : D.ReadsDeclarations n) :
    (declarationOf (n + 1) S D).ReadsDeclarations (n + 1) := by
  intro ts a t h hlength ht
  simp only [declarationOf, yields_recovering_some, yields_bind]
  cases h with
  | @function _ word name left ps params right opening ts body closing hword hname hleft hps hcount
      hnames hright hopening hts hclosing =>
    simp only [List.length_cons, List.length_append] at hlength
    refine ⟨some word, _, accept_reads (by simp [hword]), yields_ite.2 (.inl ⟨hword, ?_⟩)⟩
    exact funDeclaration_reads hD (Nat.le_succ n) hname hleft hps hcount hnames hright hopening hts
      hclosing (by omega) (by omega)
  | var h =>
    obtain ⟨word, us, rfl, hword, hread⟩ :=
      varDeclaration_reads (t := t) (expression_reads (n + 1)) h hlength
    exact ⟨some word, _, accept_reads (by simp [hword]),
      yields_ite.2 (.inr ⟨by simp [hword], hread⟩)⟩
  | statement h =>
    have havoid : (t.unread ts).Avoids [.funWord, .varWord] :=
      (statement_starts h).avoids (by decide)
    exact ⟨none, _, yields_accept_none.2 ⟨havoid, rfl⟩,
      statementOf_reads hS hD _ ts a t h hlength fun _ => ht⟩

end

/-- Statements and declarations that the grammar derives are read cleanly. -/
theorem statement_reads (n : Nat) :
    (statement n).ReadsStatements n ∧ (declaration n).ReadsDeclarations n := by
  induction n with
  | zero =>
    constructor
    · intro d ts a t h hlength
      have := (statement_starts h).length_pos
      omega
    · intro ts a t h hlength
      have := (declaration_starts h).length_pos
      omega
  | succ n ih => exact ⟨statementOf_reads ih.1 ih.2, declarationOf_reads ih.1 ih.2⟩

end Treewalk.Parser
