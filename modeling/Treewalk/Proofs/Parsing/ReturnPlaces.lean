import Treewalk.Proofs.Parsing.Plan
import Treewalk.Proofs.Parsing.Progress
import Treewalk.Proofs.Parsing.Results

/-!
# Returns outside of functions

A `return` is an error where no body of a function is open. The parser knows this from a mark in its
state, which is set for a body and set back behind it, however the body ends. So what is noted
depends on the nesting of the functions only, also where declarations were given up, inside of
functions or around them, and it agrees with the nesting in the trees that are returned.

`Parser.Tracked` is a plan of a parser with the proof that its errors and its trees fit to the
`return`s that it takes.
-/

namespace Treewalk

/-- The `return` that the error is about, if it is that this stands outside of all functions. -/
def SyntaxError.strayReturn? : SyntaxError → Option Token
  | returnOutsideFunction keyword => some keyword
  | _ => none

mutual

/-- The returns in a statement, in their order, each with the number of functions in the statement
that are around it. -/
def Stmt.returns : Stmt → List (Token × Nat)
  | .expr _ => []
  | .print _ => []
  | .var _ _ => []
  | .block body => Stmt.returnsAll body
  | .branch _ thenBranch none => thenBranch.returns
  | .branch _ thenBranch (some elseBranch) => thenBranch.returns ++ elseBranch.returns
  | .loop _ body => body.returns
  | .function _ _ body => (Stmt.returnsAll body).map (Prod.map id (· + 1))
  | .ret keyword _ => [(keyword, 0)]

/-- The returns in statements. -/
def Stmt.returnsAll : List Stmt → List (Token × Nat)
  | [] => []
  | s :: ss => s.returns ++ Stmt.returnsAll ss

end

/-- The form that a for statement takes keeps the returns of its parts; its conditions and
increments are expressions and have none. -/
theorem Stmt.returns_forLoop (first : Option Stmt) (cond increment : Option Expr) (body : Stmt) :
    (Stmt.forLoop first cond increment body).returns =
      first.elim [] Stmt.returns ++ body.returns := by
  cases first <;> cases increment <;> simp [forLoop, returns, returnsAll]

/-- Declarations that were given up leave no returns. -/
theorem Stmt.returnsAll_filterMap (found : List (Option Stmt)) :
    Stmt.returnsAll (found.filterMap id) = found.flatMap fun o => o.elim [] Stmt.returns := by
  induction found with
  | nil => rfl
  | cons o found ih =>
    cases o with
    | none => exact ih
    | some s => exact congrArg (s.returns ++ ·) ih

namespace Parser

namespace Return

/-- The `return` as it stands in a tree: the token, and the number of functions around it. -/
def mark? (r : Return) : Option (Token × Nat) :=
  if r.taken then some (r.keyword, r.depth) else none

/-- The `return`, if it is taken where the state is not marked as part of a body. -/
def stray? (r : Return) : Option Token :=
  if r.taken && !r.before.inFunction then some r.keyword else none

/-- One more function around a `return` adds one to its depth. -/
theorem mark?_deeper (r : Return) : r.deeper.mark? = r.mark?.map (Prod.map id (· + 1)) := by
  cases h : r.taken <;> simp [mark?, deeper, h]
  rfl

end Return

/-- A `return` at which a declaration was given up is neither noted nor part of a tree. -/
theorem mem_refused_taken {α : Type} {r : ListReply α} {x : Return} (h : x ∈ r.refused) :
    x.stray? = none ∧ x.mark? = none := by
  obtain ⟨rfl, -⟩ := Plan.mem_refused h
  exact ⟨rfl, rfl⟩

/-! ## Parsers that keep track -/

/-- A plan of a parser that is run behind returns of `pre` and leaves the returns `ρ a` with a
result `a`. It notes the `return`s that it takes where no body is open, and no others, and the
returns that it leaves are among those of `pre` and those that it takes, in this order. -/
structure Tracked {α : Type} (p : ListParser α) (pre : List (Token × Nat))
    (ρ : α → List (Token × Nat)) where
  plan : Plan p
  errors_eq {tokens : List Token} {i : Nat} {s : State} : s.At tokens i →
    (p s).notes.errors.filterMap SyntaxError.strayReturn? =
      (plan.returns s).filterMap Return.stray?
  sublist {s : State} {a : α} : (p s).result = .ok a →
    (ρ a).Sublist (pre ++ (plan.returns s).filterMap Return.mark?)

/-- The errors that a parser notes are not about returns. In which order they stand does not matter
here. -/
def Tacit {α : Type} (p : ListParser α) : Prop :=
  p.Places 0 fun e => e.strayReturn? = none

/-- No error of such a parser is picked out as one about returns. -/
theorem Tacit.errors_eq {α : Type} {p : ListParser α} (h : p.Tacit) {tokens : List Token} {i : Nat}
    {s : State} (hs : s.At tokens i) :
    (p s).notes.errors.filterMap SyntaxError.strayReturn? = [] := by
  obtain ⟨_, found, -, herrors, hfound⟩ := h _ _ _ hs
  refine List.filterMap_eq_nil_iff.2 fun e he => ?_
  rw [herrors] at he
  obtain ⟨x, hx, rfl⟩ := List.mem_map.1 he
  exact hfound.allowed x hx

theorem Tacit.expression (bound : Nat) : (expression bound).Tacit :=
  (expression_places bound).mono (Nat.zero_le bound) fun e he => by
    cases e <;> first | rfl | cases he

namespace Tracked

variable {α β : Type} {p q : ListParser α} {f : α → ListParser β} {pre : List (Token × Nat)}
  {ρ : α → List (Token × Nat)} {σ : β → List (Token × Nat)}

/-- A parser that takes no `return` and notes none. -/
def plain {K : TokenKind → Prop} (hbuilt : Built K p) (hK : ¬K .returnWord) (htacit : p.Tacit) :
    Tracked p pre fun _ => pre where
  plan := .plain hbuilt hK
  errors_eq hs := htacit.errors_eq hs
  sublist _ := List.sublist_append_left _ _

/-- A result that leaves no more returns than those before it. -/
def pure {a : α} (h : (ρ a).Sublist pre) : Tracked (pure a) pre ρ where
  plan := .plain (K := fun _ => False) (.pure a) id
  errors_eq _ := rfl
  sublist hok := by
    cases hok
    simpa [Plan.returns] using h

/-- The second parser is run behind the returns that the result of the first one leaves. -/
def bind (x : Tracked p pre ρ) (y : ∀ a, Tracked (f a) (ρ a) σ) : Tracked (p >>= f) pre σ where
  plan := .bind x.plan fun a => (y a).plan
  errors_eq {tokens i s} hs := by
    -- The second parser starts somewhere in front of the same tokens.
    obtain ⟨j, -, hj, -⟩ := x.plan.built.exists_at hs
    cases hr : (p s).result with
    | error e => rw [bind_error hr, Plan.returns_bind_error hr, x.errors_eq hs]
    | ok a =>
      rw [bind_ok hr, Plan.returns_bind_ok hr, Notes.errors_append, List.filterMap_append,
        List.filterMap_append, x.errors_eq hs, (y a).errors_eq hj]
  sublist {s b} hok := by
    obtain ⟨a, ha⟩ := exists_ok_of_bind hok
    rw [bind_ok ha] at hok
    rw [Plan.returns_bind_ok ha, List.filterMap_append, ← List.append_assoc]
    exact ((y a).sublist hok).trans ((x.sublist ha).append_right _)

/-- Returns before those of the parser stay where they are. -/
def frame (x : Tracked p [] ρ) : Tracked p pre fun a => pre ++ ρ a where
  plan := x.plan
  errors_eq := x.errors_eq
  sublist hok := (x.sublist hok).append_left pre

/-- A function of the result may drop returns but not add any. -/
def map (x : Tracked p pre ρ) {g : α → β} (h : ∀ a, (σ (g a)).Sublist (ρ a)) :
    Tracked (g <$> p) pre σ :=
  x.bind fun a => pure (h a)

/-- Inside of a function every `return` is one deeper, and the mark says that a body is open. -/
def withinFunction (x : Tracked p [] ρ) :
    Tracked (withinFunction p) [] fun a => (ρ a).map (Prod.map id (· + 1)) where
  plan := .withinFunction x.plan
  errors_eq hs := by
    rw [Plan.returns, List.filterMap_map]
    exact x.errors_eq (hs.within true)
  sublist {s a} hok := by
    have hinner := (x.sublist (s := s.within true) hok).map (Prod.map id (· + 1))
    rw [List.nil_append, List.map_filterMap] at hinner
    rw [Plan.returns, List.filterMap_map, List.nil_append]
    simpa only [Function.comp_def, Return.mark?_deeper] using hinner

/-- A declaration that is given up leaves no returns. Those that were taken in it are noted all the
same. -/
def recovering (x : Tracked p [] ρ) : Tracked (recovering p) [] fun o => o.elim [] ρ where
  plan := .recovering x.plan
  errors_eq {tokens i s} hs := by
    have hrefused : (p s).refused.filterMap Return.stray? = [] :=
      List.filterMap_eq_nil_iff.2 fun _ h => (mem_refused_taken h).1
    rw [Plan.returns, List.filterMap_append, hrefused, List.append_nil, ← x.errors_eq hs]
    cases hr : (p s).result with
    | ok a => rw [recovering_ok hr]
    | error e => simp [recovering_error hr, SyntaxError.strayReturn?]
  sublist {s o} hok := by
    cases hr : (p s).result with
    | ok a =>
      rw [recovering_ok hr] at hok
      cases hok
      rw [Plan.returns, List.filterMap_append, ← List.append_assoc]
      exact (x.sublist hr).trans (List.sublist_append_left _ _)
    | error e =>
      rw [recovering_error hr] at hok
      cases hok
      exact List.nil_sublist _

/-- Equal parsers are tracked alike. -/
def ofEq (h : q = p) (x : Tracked p pre ρ) : Tracked q pre ρ where
  plan := .ofEq h.symm x.plan
  errors_eq := by
    subst h
    exact x.errors_eq
  sublist := by
    subst h
    exact x.sublist

/-- The two ways to go on behind a token that may be missing. -/
def ofOption {f : Option α → ListParser β} {ρ : Option α → List (Token × Nat)}
    (x : Tracked (f none) (ρ none) σ) (y : ∀ a, Tracked (f (some a)) (ρ (some a)) σ) :
    ∀ o, Tracked (f o) (ρ o) σ
  | none => x
  | some a => y a

def ite (c : Prop) [Decidable c] (x : Tracked p pre ρ) (y : Tracked q pre ρ) :
    Tracked (if c then p else q) pre ρ :=
  if h : c then .ofEq (if_pos h) x else .ofEq (if_neg h) y

def unexpected (message : String) : Tracked (unexpected message : ListParser α) pre ρ where
  plan := .plain (K := fun _ => False) (.unexpected message) id
  errors_eq _ := rfl
  sublist hok := nomatch hok

def check (kind : TokenKind) : Tracked (check kind) pre fun _ => pre :=
  plain (K := fun _ => False) (.check kind) id (Places.check kind)

def atEnd : Tracked Parser.atEnd pre fun _ => pre :=
  plain (K := fun _ => False) .atEnd id Places.atEnd

def accept {kinds : List TokenKind} (h : .returnWord ∉ kinds) :
    Tracked (accept kinds) pre fun _ => pre :=
  plain (K := (· ∈ kinds)) (.accept fun _ hk => hk) h (Places.accept kinds)

def expect {kind : TokenKind} (message : String) (h : kind ≠ .returnWord) :
    Tracked (expect kind message) pre fun _ => pre :=
  plain (K := (· = kind)) (.expect message rfl) (fun hk => h hk.symm) (Places.expect kind message)

/-- The rounds leave their returns one after the other. -/
def many {p : ListParser (Option α)} (x : Tracked p [] fun o => o.elim [] ρ) :
    (bound : Nat) → Tracked (many p bound) [] (List.flatMap ρ)
  | 0 => pure (List.nil_sublist _)
  | bound + 1 => x.bind <| ofOption (pure (List.nil_sublist _)) fun _ =>
      (x.many bound).frame.bind fun _ => pure (.refl _)

/-! ## Statements -/

variable {S : ListParser Stmt} {D : ListParser (Option Stmt)}

def expression (bound : Nat) : Tracked (expression bound) pre fun _ => pre :=
  plain (expression_built bound) (by decide) (.expression bound)

def parameters (bound : Nat) : Tracked (items bound parameter) pre fun _ => pre :=
  plain (K := (· ≠ .returnWord)) (.items (parameter_built (by decide)) (by decide) bound) (by simp)
    (Places.items (parameter_places (fun _ => rfl) fun _ => rfl) bound)

def clause (bound : Nat) (stop : TokenKind) :
    Tracked (clause stop (Parser.expression bound)) pre fun _ => pre :=
  (check stop).bind fun _ => ite _ (pure (.refl _)) ((expression bound).map fun _ => .refl _)

def expressionStatement (bound : Nat) :
    Tracked (expressionStatement (Parser.expression bound)) [] Stmt.returns :=
  (expression bound).bind fun _ => (expect _ (by decide)).bind fun _ => pure (.refl _)

def printStatement (bound : Nat) :
    Tracked (printStatement (Parser.expression bound)) [] Stmt.returns :=
  (expression bound).bind fun _ => (expect _ (by decide)).bind fun _ => pure (.refl _)

def varDeclaration (bound : Nat) :
    Tracked (varDeclaration (Parser.expression bound)) [] Stmt.returns :=
  (expect _ (by decide)).bind fun _ => (accept (by decide)).bind <|
    ofOption ((expect _ (by decide)).bind fun _ => pure (.refl _)) fun _ =>
      ((expression bound).map (g := some) fun _ => .refl _).bind fun _ =>
        (expect _ (by decide)).bind fun _ => pure (.refl _)

def initializer (bound : Nat) :
    Tracked (initializer (Parser.expression bound)) [] fun o => o.elim [] Stmt.returns :=
  (accept (by decide)).bind <| ofOption ((expressionStatement bound).map fun _ => .refl _) fun _ =>
    ite _ (pure (.refl _)) ((varDeclaration bound).map fun _ => .refl _)

def declarations (x : Tracked D [] fun o => o.elim [] Stmt.returns) (bound : Nat) :
    Tracked (declarations bound D) [] Stmt.returnsAll :=
  let next : Tracked (declarations.next D) [] fun o => o.elim [] fun o => o.elim [] Stmt.returns :=
    atEnd.bind fun _ => (check _).bind fun _ => ite _ (pure (.refl _)) (x.map fun _ => .refl _)
  (next.many bound).map fun found => Stmt.returnsAll_filterMap found ▸ .refl _

def block (x : Tracked D [] fun o => o.elim [] Stmt.returns) (bound : Nat) :
    Tracked (block bound D) [] Stmt.returnsAll :=
  (declarations x bound).bind fun _ => (expect _ (by decide)).bind fun _ => pure (.refl _)

/-- The only place where the depth changes is the body of a function. -/
def funDeclaration (x : Tracked D [] fun o => o.elim [] Stmt.returns) (bound : Nat) :
    Tracked (funDeclaration bound D) [] Stmt.returns :=
  (expect _ (by decide)).bind fun _ => (expect _ (by decide)).bind fun _ =>
    (parameters bound).bind fun _ => (expect _ (by decide)).bind fun _ =>
    (expect _ (by decide)).bind fun _ =>
    (block x bound).withinFunction.bind fun _ => pure (.refl _)

def ifStatement (bound : Nat) (x : Tracked S [] Stmt.returns) :
    Tracked (ifStatement (Parser.expression bound) S) [] Stmt.returns :=
  (expect _ (by decide)).bind fun _ => (expression bound).bind fun _ =>
    (expect _ (by decide)).bind fun _ => x.bind fun _ => (accept (by decide)).bind <|
      ofOption (pure (.refl _)) fun _ =>
        (x.frame.map (g := some) fun _ => .refl _).bind fun _ => pure (.refl _)

def whileStatement (bound : Nat) (x : Tracked S [] Stmt.returns) :
    Tracked (whileStatement (Parser.expression bound) S) [] Stmt.returns :=
  (expect _ (by decide)).bind fun _ => (expression bound).bind fun _ =>
    (expect _ (by decide)).bind fun _ => x.bind fun _ => pure (.refl _)

def forStatement (bound : Nat) (x : Tracked S [] Stmt.returns) :
    Tracked (forStatement (Parser.expression bound) S) [] Stmt.returns :=
  (expect _ (by decide)).bind fun _ => (initializer bound).bind fun _ =>
    (clause bound _).bind fun _ => (expect _ (by decide)).bind fun _ =>
    (clause bound _).bind fun _ => (expect _ (by decide)).bind fun _ =>
    x.frame.bind fun _ => pure (Stmt.returns_forLoop .. ▸ .refl _)

end Tracked

/-- What is read behind a `return`: it is noted if no body is open, no other is taken, and it is
the one that stands in the statement. -/
structure Announces (t : Token) (p : ListParser Stmt) : Prop where
  built : Built (· ≠ .returnWord) p
  errors_eq {tokens : List Token} {i : Nat} {s : State} : s.At tokens i →
    (p s).notes.errors.filterMap SyntaxError.strayReturn? = if s.inFunction then [] else [t]
  returns_eq {s : State} {a : Stmt} : (p s).result = .ok a → a.returns = [(t, 0)]

/-- A return statement notes itself where no body is open, and is the one return in what it gives.
-/
theorem returnStatement_announces (bound : Nat) (t : Token) :
    Announces t (returnStatement (expression bound) t) := by
  let E : ListParser Expr := expression bound
  -- Behind the report the statement is read alike inside and outside of a function.
  let rest : ListParser Stmt := do
    let value ← clause .semicolon E
    let _ ← expect .semicolon "Expect ';' after return value."
    pure (.ret t value)
  have hE : Built (· ≠ .returnWord) E :=
    (expression_built bound).mono fun k hk hkind => absurd hk (hkind ▸ by decide)
  have hbuilt : Built (· ≠ .returnWord) rest :=
    .bind (clause_built hE _) fun _ => .bind (.expect _ (by decide)) fun _ => .pure _
  -- No other error of the statement is about returns.
  have htacit : rest.Tacit :=
    (clause_places (Tacit.expression bound) _).bind fun _ => (Places.expect _ _).bind fun _ =>
      .pure _
  have hgives : rest.Gives (fun _ => True) fun a => a.returns = [(t, 0)] :=
    (Gives.any _).bind fun _ _ => (Gives.any _).bind fun _ _ => .pure rfl
  refine ⟨.bind .inFunction fun fn => ?_, fun {_ _ s} hs => ?_, fun {s a} hok => ?_⟩
  · cases fn with
    | true => exact hbuilt
    | false => exact .bind (.report rfl) fun _ => hbuilt
  · change ((inFunction >>= _) s).notes.errors.filterMap _ = _
    rw [inFunction_bind]
    cases s.inFunction with
    | true => exact htacit.errors_eq hs
    | false =>
      change (t :: (rest s).notes.errors.filterMap _) = _
      rw [htacit.errors_eq hs]
      rfl
  · have hall : (returnStatement E t).Gives (fun _ => True) fun a => a.returns = [(t, 0)] := by
      refine (Gives.any _).bind fun fn _ => ?_
      cases fn with
      | true => exact hgives
      | false => exact (Gives.any _).bind fun _ _ => hgives
    exact (hall s fun _ _ => trivial).2 a hok

/-- Of the statements that a first word decides between, a `return` starts the one behind it. -/
theorem Announces.firstWord {t : Token} {p : ListParser Stmt} (h : Announces t p)
    (ht : t.kind = .returnWord) {ifs fors whiles prints blocks : ListParser Stmt} :
    Announces t (if t.kind = .ifWord then ifs else if t.kind = .forWord then fors
      else if t.kind = .whileWord then whiles else if t.kind = .printWord then prints
      else if t.kind = .returnWord then p else blocks) := by
  simpa [ht] using h

namespace Tracked

/-- A first word, or none. What is read behind a `return` takes care of it. -/
def word (kinds : List TokenKind) {f : Option Token → ListParser Stmt}
    (x : Tracked (f none) [] Stmt.returns)
    (h : ∀ t, t.kind = .returnWord → Announces t (f (some t)))
    (y : ∀ t, t.kind ≠ .returnWord → Tracked (f (some t)) [] Stmt.returns) :
    Tracked (Parser.accept kinds >>= f) [] Stmt.returns where
  plan := .bind (.accept kinds) fun
    | none => x.plan
    | some t => if ht : t.kind = .returnWord then .plain (h t ht).built (by simp) else (y t ht).plan
  errors_eq {tokens i s} hs := by
    obtain ⟨hreply, hreturns⟩ | ⟨t, s', rfl, hreply, hreturns⟩ := Plan.accept_bind_cases kinds _ s
    · rw [hreply, hreturns]
      exact x.errors_eq hs
    · rw [hreply, hreturns]
      by_cases ht : t.kind = .returnWord
      · rw [(h t ht).errors_eq hs.unread]
        simp only [if_pos ht, dif_pos ht, Plan.returns]
        cases hfn : s'.inFunction <;>
          simp [Return.stray?, Return.keyword, State.unread, State.current, hfn]
      · rw [(y t ht).errors_eq hs.unread]
        simp only [if_neg ht, dif_neg ht, List.nil_append]
  sublist {s a} hok := by
    obtain ⟨hreply, hreturns⟩ | ⟨t, s', rfl, hreply, hreturns⟩ := Plan.accept_bind_cases kinds _ s
    · rw [hreply] at hok
      rw [hreturns]
      exact x.sublist hok
    · rw [hreply] at hok
      rw [hreturns]
      by_cases ht : t.kind = .returnWord
      · rw [(h t ht).returns_eq hok, if_pos ht]
        exact List.sublist_append_left [(t, 0)] _
      · simpa only [if_neg ht, dif_neg ht, List.nil_append] using (y t ht).sublist hok

variable {S : ListParser Stmt} {D : ListParser (Option Stmt)}

/-- One step of the induction for statements. The returns inside of them come from the parsers
inside, and only a return statement adds one of its own. -/
def statementOf (bound : Nat) (x : Tracked S [] Stmt.returns)
    (y : Tracked D [] fun o => o.elim [] Stmt.returns) :
    Tracked (statementOf bound S D) [] Stmt.returns :=
  .ofEq (statementOf_eq bound S D) <| word statementWords (expressionStatement bound)
    (fun t ht => (returnStatement_announces bound t).firstWord ht)
    fun _ ht =>
      ite _ (ifStatement bound x) <| ite _ (forStatement bound x) <|
      ite _ (whileStatement bound x) <| ite _ (printStatement bound) <|
      .ofEq (if_neg ht) ((block y bound).map fun _ => .refl _)

def declared (bound : Nat) (x : Tracked S [] Stmt.returns)
    (y : Tracked D [] fun o => o.elim [] Stmt.returns) :
    Tracked (declared bound S D) [] Stmt.returns :=
  (accept (by decide)).bind <| ofOption (statementOf bound x y) fun _ =>
    ite _ (funDeclaration y bound) (varDeclaration bound)

end Tracked

/-- The parsers for statements and declarations keep track of the `return`s. -/
def tracked : (bound : Nat) → Tracked (statement bound) [] Stmt.returns ×
    Tracked (declaration bound) [] fun o => o.elim [] Stmt.returns
  | 0 => (.unexpected _, .recovering (.unexpected _))
  | bound + 1 =>
    let inner := tracked bound
    (.statementOf (bound + 1) inner.1 inner.2,
      .ofEq (declarationOf_eq _ _ _) (.recovering (.declared (bound + 1) inner.1 inner.2)))

/-- The parser for programs keeps track of the `return`s. -/
def trackedProgram (bound : Nat) : Tracked (program bound) [] Stmt.returnsAll :=
  let next : Tracked (program.next bound) [] fun o => o.elim [] fun o => o.elim [] Stmt.returns :=
    Tracked.atEnd.bind fun _ => .ite _ (.pure (.refl _)) ((tracked bound).2.map fun _ => .refl _)
  (next.many bound).map fun found => Stmt.returnsAll_filterMap found ▸ .refl _

/-! ## Programs -/

/-- The `return`s that the parser comes across in a program, in their order. -/
def returnsIn (tokens : List Token) : List Return :=
  (trackedProgram (endIndex tokens)).plan.returns (.start tokens)

/-- The index of the `return`. -/
def Return.index (tokens : List Token) (r : Return) : Nat :=
  endIndex tokens - r.before.rest.length

/-- What is left from each `return` on, listed by the indices of the `return`s. -/
theorem returnTails_eq (ts : List Token) : returnTails ts =
    ((List.range ts.length).filter fun i => ts[i]?.any fun t => t.kind = .returnWord).map
      ts.drop := by
  induction ts with
  | nil => rfl
  | cons t ts ih =>
    rw [List.length_cons, List.range_succ_eq_map, List.filter_cons, List.filter_map, returnTails,
      ih]
    by_cases ht : t.kind = .returnWord <;> simp [ht, Function.comp_def]

theorem getElem?_start_rest {tokens : List Token} {i : Nat} (h : i < endIndex tokens) :
    (State.start tokens).rest[i]? = some (tokenAt tokens i) := by
  rw [start_rest_eq, List.getElem?_take_of_lt h,
    getElem?_eq_tokenAt (Nat.lt_of_lt_of_le h List.findIdx_le_length)]

/-- The indices of the `return`s up to the end of the input. -/
def returnIndices (tokens : List Token) : List Nat :=
  (List.range (endIndex tokens)).filter fun i => (tokenAt tokens i).kind = .returnWord

/-- The parser comes across all `return`s up to the end of the input. -/
theorem returnsIn_rest (tokens : List Token) : (returnsIn tokens).map (·.before.rest) =
    (returnIndices tokens).map (State.start tokens).rest.drop := by
  have hrest : (program (endIndex tokens) (State.start tokens)).state.rest = [] :=
    program_rest (Nat.le_of_eq (length_start_rest tokens))
  have htails := (trackedProgram (endIndex tokens)).plan.returns_tails (.start tokens)
  rw [hrest, returnTails, List.append_nil, returnTails_eq, length_start_rest] at htails
  refine htails.trans (congrArg _ (List.filter_congr fun i hi => ?_))
  simp [getElem?_start_rest (List.mem_range.1 hi)]

/-- The parser comes across every `return` once, and in their order. -/
theorem returnsIn_index (tokens : List Token) :
    (returnsIn tokens).map (Return.index tokens) = returnIndices tokens := by
  have h := congrArg (List.map fun rest => endIndex tokens - rest.length) (returnsIn_rest tokens)
  rw [List.map_map, List.map_map] at h
  refine h.trans ((List.map_congr_left fun i hi => ?_).trans (List.map_id _))
  have hlt := List.mem_range.1 (List.mem_filter.1 hi).1
  rw [Function.comp_apply, List.length_drop, length_start_rest, id]
  omega

/-- What the parser came across is the token with that index. -/
theorem Return.keyword_eq {tokens : List Token} {r : Return} (h : r ∈ returnsIn tokens) :
    r.keyword = tokenAt tokens (r.index tokens) := by
  have hmem := List.mem_map_of_mem (f := (·.before.rest)) h
  rw [returnsIn_rest] at hmem
  obtain ⟨i, hi, hrest⟩ := List.mem_map.1 hmem
  have hlt := List.mem_range.1 (List.mem_filter.1 hi).1
  -- The index is told by how many tokens are left.
  have hindex : r.index tokens = i := by
    rw [index, ← hrest, List.length_drop, length_start_rest]
    omega
  rw [keyword, State.current, ← hrest, List.headD_eq_head?_getD, List.head?_drop,
    getElem?_start_rest hlt, hindex, Option.getD_some]

/-- Only the `return`s that were taken have a place in a tree. -/
theorem filterMap_mark? (rs : List Return) :
    rs.filterMap Return.mark? = (rs.filter Return.taken).map fun r => (r.keyword, r.depth) := by
  induction rs with
  | nil => rfl
  | cons r rs ih => cases h : r.taken <;> simp [Return.mark?, h, ih]

/-- Where no function is around the parser, the `return`s outside of bodies are those that the
state does not mark. -/
theorem Plan.filterMap_stray? {α : Type} {p : ListParser α} (c : Plan p) {s : State}
    (hs : s.inFunction = false) : (c.returns s).filterMap Return.stray? =
      ((c.returns s).filter fun r => r.taken && r.depth == 0).map Return.keyword := by
  have hmark : ∀ r ∈ c.returns s, r.before.inFunction = decide (0 < r.depth) := fun r hr => by
    simpa [hs] using c.inFunction_eq hr
  generalize c.returns s = rs at hmark
  induction rs with
  | nil => rfl
  | cons r rs ih =>
    obtain ⟨hr, hrs⟩ := List.forall_mem_cons.1 hmark
    rw [List.filterMap_cons, List.filter_cons, ih hrs, Return.stray?, hr]
    cases r.taken <;> cases hdepth : r.depth <;> simp

/-! ## Rules -/

/-- The parsers of the grammar, with the parsers inside that they are used with. -/
inductive Rule {σ ε : Type} [Reader σ ε] : {α : Type} → Parser σ ε α → Prop where
  | program (n : Nat) : Rule (program n)
  | declaration (n : Nat) : Rule (declaration n)
  | statement (n : Nat) : Rule (statement n)
  | declarations (m n : Nat) : Rule (declarations m (declaration n))
  | block (m n : Nat) : Rule (block m (declaration n))
  | funDeclaration (m n : Nat) : Rule (funDeclaration m (declaration n))
  | parameter (before : List Token) : Rule (parameter before)
  | varDeclaration (n : Nat) : Rule (varDeclaration (expression n))
  | ifStatement (m n : Nat) : Rule (ifStatement (expression m) (statement n))
  | whileStatement (m n : Nat) : Rule (whileStatement (expression m) (statement n))
  | forStatement (m n : Nat) : Rule (forStatement (expression m) (statement n))
  | initializer (n : Nat) : Rule (initializer (expression n))
  | clause (stop : TokenKind) (n : Nat) : Rule (clause stop (expression n))
  | printStatement (n : Nat) : Rule (printStatement (expression n))
  | returnStatement (n : Nat) (keyword : Token) : Rule (returnStatement (expression n) keyword)
  | expressionStatement (n : Nat) : Rule (expressionStatement (expression n))
  | expression (n : Nat) : Rule (expression n)
  | assignment (m n : Nat) : Rule (assignment m (expression n))
  | levels (m n : Nat) {levels : List Level} : levels ⊆ Level.ladder →
      Rule (levels.foldr (fun level operand => level.expression m operand) (unary m (expression n)))
  | unary (m n : Nat) : Rule (unary m (expression n))
  | call (m n : Nat) : Rule (call m (expression n))
  | arguments (m n : Nat) : Rule (arguments m (expression n))
  | argument (n : Nat) (before : List Expr) : Rule (argument (expression n) before)
  | primary (n : Nat) : Rule (primary (expression n))

/-- Every parser of the grammar is built from the basic ones. -/
theorem Rule.built {σ ε α : Type} [Reader σ ε] {p : Parser σ ε α} (h : Rule p) :
    Built (fun _ => True) p := by
  have hE (n : Nat) : Built (fun _ => True) (Parser.expression n : Parser σ ε Expr) :=
    (expression_built n).any
  have hS (n : Nat) : Built (fun _ => True) (Parser.statement n : Parser σ ε Stmt) :=
    (statement_built n).1
  have hD (n : Nat) : Built (fun _ => True) (Parser.declaration n : Parser σ ε (Option Stmt)) :=
    (statement_built n).2
  cases h with
  | program n => exact program_built n
  | declaration n => exact hD n
  | statement n => exact hS n
  | declarations m n => exact declarations_built (hD n) m
  | block m n => exact block_built (hD n) m
  | funDeclaration m n => exact funDeclaration_built (hD n) m
  | parameter before => exact parameter_built trivial before
  | varDeclaration n => exact varDeclaration_built (hE n)
  | ifStatement m n => exact ifStatement_built (hE m) (hS n)
  | whileStatement m n => exact whileStatement_built (hE m) (hS n)
  | forStatement m n => exact forStatement_built (hE m) (hS n)
  | initializer n => exact initializer_built (hE n)
  | clause stop n => exact clause_built (hE n) stop
  | printStatement n => exact printStatement_built (hE n)
  | returnStatement n keyword => exact returnStatement_built (hE n) keyword
  | expressionStatement n => exact expressionStatement_built (hE n)
  | expression n => exact hE n
  | assignment m n => exact (assignment_built m (expression_built n)).any
  | levels m n hlevels => exact (levels_built m (expression_built n) hlevels).any
  | unary m n => exact (unary_built m (expression_built n)).any
  | call m n => exact (call_built m (expression_built n)).any
  | arguments m n => exact (arguments_built m (expression_built n)).any
  | argument n before => exact (argument_built (expression_built n) before).any
  | primary n => exact (primary_built (fun _ => id) (expression_built n)).any

end Parser

open Treewalk.Parser

/-- Returns are judged by the functions around them, also where declarations were given up.

* Every parser of the grammar leaves the mark for bodies of functions as it found it, whether it has
  a result or not.
* The parser comes across every `return` of a program once, in their order, and its state is marked
  there if and only if a body is open. It takes the `return`, or gives up a declaration at it, which
  is an error at this token.
* Those that are taken where no body is open, and only those, are noted as returns outside of
  functions, once each and in their order.
* The returns in the statements of the program are some of those that were taken, in their order,
  and for each as many bodies were open as functions are around it in its statement. So those that
  are in no function are noted. -/
theorem returns_judged_by_nesting (tokens : List Token) :
    (∀ {α : Type} {p : Parser Parser.Cursor Halt α}, Rule p →
      ∀ c, (p c).state.inFunction = c.inFunction) ∧
    (returnsIn tokens).map (Return.index tokens) =
      (List.range (endIndex tokens)).filter (fun i => (tokenAt tokens i).kind = .returnWord) ∧
    (∀ r ∈ returnsIn tokens, r.keyword = tokenAt tokens (r.index tokens) ∧
      (r.before.inFunction = true ↔ 0 < r.depth) ∧
      (r.taken = false →
        ∃ u, .unexpectedToken u ∈ (parse tokens).errors ∧ u.found = r.keyword)) ∧
    (parse tokens).errors.filterMap SyntaxError.strayReturn? =
      ((returnsIn tokens).filter fun r => r.taken && r.depth == 0).map Return.keyword ∧
    (∃ kept : List Return, kept.Sublist ((returnsIn tokens).filter Return.taken) ∧
      Stmt.returnsAll (parse tokens).statements = kept.map fun r => (r.keyword, r.depth)) ∧
    ∀ keyword, (keyword, 0) ∈ Stmt.returnsAll (parse tokens).statements →
      .returnOutsideFunction keyword ∈ (parse tokens).errors := by
  let x := trackedProgram (endIndex tokens)
  let reply := program (endIndex tokens) (State.start tokens)
  obtain ⟨statements, hstatements⟩ := total_program (endIndex tokens) (State.start tokens)
  have hparse : parse tokens = ⟨statements, reply.notes.errors, reply.notes.abandoned⟩ := by
    rw [parse_eq, length_start_rest, Reply.program, hstatements]
    rfl
  have herrors := (x.errors_eq (.start tokens)).trans (x.plan.filterMap_stray? rfl)
  -- Statements of declarations that were given up are lost, and their returns with them.
  have hkept := x.sublist hstatements
  rw [List.nil_append, filterMap_mark?] at hkept
  obtain ⟨kept, hsublist, hreturns⟩ := List.sublist_map_iff.1 hkept
  rw [hparse]
  refine ⟨fun h c => (h.built.reaches c).inFunction_eq, returnsIn_index tokens,
    fun r hr => ⟨?_, ?_, ?_⟩, herrors, ⟨kept, hsublist, hreturns⟩, fun keyword hmem => ?_⟩
  · exact r.keyword_eq hr
  · rw [x.plan.inFunction_eq hr]
    exact decide_eq_true_iff
  · exact x.plan.exists_unexpected hr
  · change (keyword, 0) ∈ Stmt.returnsAll statements at hmem
    rw [hreturns] at hmem
    obtain ⟨r, hr, hmark⟩ := List.mem_map.1 hmem
    obtain ⟨rfl, hdepth⟩ := Prod.mk.inj hmark
    obtain ⟨hr, htaken⟩ := List.mem_filter.1 (hsublist.subset hr)
    have hnoted : r.keyword ∈ reply.notes.errors.filterMap SyntaxError.strayReturn? := by
      rw [herrors]
      exact List.mem_map_of_mem (List.mem_filter.2 ⟨hr, by simp [htaken, hdepth]⟩)
    obtain ⟨e, he, hstray⟩ := List.mem_filterMap.1 hnoted
    cases e <;> cases hstray
    exact he

/-- Recovery inside of a function stays there, and so the first `return` is in the function. The
second one is in none, and at the third a declaration is given up. -/
theorem returns_judged_by_nesting_of_malformed :
    let inside : Token := ⟨.returnWord, "return", none, 1⟩
    let outside : Token := ⟨.returnWord, "return", none, 2⟩
    let refused : Token := ⟨.returnWord, "return", none, 3⟩
    let semicolon : Token := ⟨.semicolon, ";", none, 1⟩
    let tokens : List Token := [⟨.funWord, "fun", none, 1⟩, ⟨.identifier, "f", none, 1⟩,
      ⟨.leftParen, "(", none, 1⟩, ⟨.rightParen, ")", none, 1⟩, ⟨.leftBrace, "\x7b", none, 1⟩,
      ⟨.rightParen, ")", none, 1⟩, inside, semicolon, ⟨.rightBrace, "\x7d", none, 1⟩,
      outside, semicolon, ⟨.nullWord, "null", none, 3⟩, refused, semicolon, .endOfInput 3]
    (returnsIn tokens).map (fun r => (r.index tokens, r.taken, r.depth)) =
      [(6, true, 1), (9, true, 0), (12, false, 0)] ∧
    (declaration 14 (Parser.Cursor.start tokens)).state.inFunction = false ∧
    (∃ r ∈ returnsIn tokens, r.taken = false ∧ r.depth = 0 ∧ ¬r.before.inFunction = true ∧
      ∃ u, .unexpectedToken u ∈ (parse tokens).errors ∧ u.found = r.keyword) ∧
    Stmt.returnsAll (parse tokens).statements = [(inside, 1), (outside, 0)] ∧
    .returnOutsideFunction outside ∈ (parse tokens).errors ∧
    (parse tokens).errors.filterMap SyntaxError.strayReturn? = [outside] := by
  intro inside outside refused semicolon tokens
  obtain ⟨hrules, -, hall, hnoted, -, hstray⟩ := returns_judged_by_nesting tokens
  have hstatements : Stmt.returnsAll (parse tokens).statements = [(inside, 1), (outside, 0)] := by
    decide +kernel
  obtain ⟨r, hr, hrefused⟩ : ∃ r ∈ returnsIn tokens, r.taken = false ∧ r.depth = 0 := by
    decide +kernel
  obtain ⟨-, hmark, hgivenUp⟩ := hall r hr
  refine ⟨by decide +kernel, hrules (.declaration 14) _, ⟨r, hr, hrefused.1, hrefused.2, ?_,
    hgivenUp hrefused.1⟩, hstatements, hstray outside ?_, hnoted.trans (by decide +kernel)⟩
  · rw [hmark, hrefused.2]
    exact Nat.lt_irrefl 0
  · rw [hstatements]
    exact List.mem_cons_of_mem _ List.mem_cons_self

end Treewalk
