import Treewalk.Proofs.Parsing.Grammar

/-!
# Relabelled tokens

The grammar sees a token only through its kind, its lexeme and its value. If the other data of the
tokens change, that is if they stand on other lines, they spell the same trees, with the changed
tokens in them.
-/

namespace Treewalk

/-! ## Trees with other tokens -/

mutual

/-- The expression with other tokens. -/
def Expr.mapTokens (f : Token → Token) : Expr → Expr
  | .literal value => .literal value
  | .var name => .var (f name)
  | .assign name value => .assign (f name) (value.mapTokens f)
  | .unary op operand => .unary (f op) (operand.mapTokens f)
  | .binary lhs op rhs => .binary (lhs.mapTokens f) (f op) (rhs.mapTokens f)
  | .logical lhs op rhs => .logical (lhs.mapTokens f) (f op) (rhs.mapTokens f)
  | .group inner => .group (inner.mapTokens f)
  | .call callee paren args => .call (callee.mapTokens f) (f paren) (Expr.mapTokensAll f args)

/-- The expressions with other tokens. -/
def Expr.mapTokensAll (f : Token → Token) : List Expr → List Expr
  | [] => []
  | e :: es => e.mapTokens f :: Expr.mapTokensAll f es

end

mutual

/-- The statement with other tokens. -/
def Stmt.mapTokens (f : Token → Token) : Stmt → Stmt
  | .expr e => .expr (e.mapTokens f)
  | .print e => .print (e.mapTokens f)
  | .var name initializer => .var (f name) (initializer.map (Expr.mapTokens f))
  | .block body => .block (Stmt.mapTokensAll f body)
  | .branch cond thenBranch none => .branch (cond.mapTokens f) (thenBranch.mapTokens f) none
  | .branch cond thenBranch (some elseBranch) =>
    .branch (cond.mapTokens f) (thenBranch.mapTokens f) (some (elseBranch.mapTokens f))
  | .loop cond body => .loop (cond.mapTokens f) (body.mapTokens f)
  | .function name params body => .function (f name) (params.map f) (Stmt.mapTokensAll f body)
  | .ret keyword value => .ret (f keyword) (value.map (Expr.mapTokens f))

/-- The statements with other tokens. -/
def Stmt.mapTokensAll (f : Token → Token) : List Stmt → List Stmt
  | [] => []
  | s :: ss => s.mapTokens f :: Stmt.mapTokensAll f ss

end

/-- There are as many arguments as before, so that the limit on their number is kept. -/
theorem Expr.length_mapTokensAll (f : Token → Token) (es : List Expr) :
    (Expr.mapTokensAll f es).length = es.length := by
  induction es with
  | nil => rfl
  | cons e es ih => simp [mapTokensAll, ih]

/-- All that the grammar sees of a token stays as it is. -/
structure Relabelling (f : Token → Token) : Prop where
  kind (t : Token) : (f t).kind = t.kind
  lexeme (t : Token) : (f t).lexeme = t.lexeme
  literal (t : Token) : (f t).literal = t.literal

theorem Relabelling.of_kind {f : Token → Token} (hf : Relabelling f) {t : Token}
    {kind : TokenKind} (h : t.kind = kind) : (f t).kind = kind :=
  (hf.kind t).trans h

namespace Grammar

variable {f : Token → Token}

/-! ## Expressions -/

/-- A node of a tier is of the same form with other tokens. -/
theorem node_mapTokens (tier : Tier) (l : Expr) (op : Token) (r : Expr) :
    (tier.node l op r).mapTokens f = tier.node (l.mapTokens f) (f op) (r.mapTokens f) := by
  cases tier <;> simp [Tier.node, Expr.mapTokens]

/-- A literal has its value from the kind of its token and from the value in it. -/
theorem Denotes.relabel (hf : Relabelling f) {t : Token} {value : Literal} :
    Denotes t value → Denotes (f t) value
  | .falseWord h => .falseWord (hf.of_kind h)
  | .trueWord h => .trueWord (hf.of_kind h)
  | .nullWord h => .nullWord (hf.of_kind h)
  | .number h hvalue => .number (hf.of_kind h) ((hf.literal t).trans hvalue)
  | .string h hvalue => .string (hf.of_kind h) ((hf.literal t).trans hvalue)

-- One case per production: the changed tokens are of the same kinds, so that the same one applies.
mutual

/-- Changed tokens spell the changed expression. -/
theorem Expression.relabel (hf : Relabelling f) {ts : List Token} {e : Expr} :
    Expression ts e → Expression (ts.map f) (e.mapTokens f)
  | .assign hname hequals hvalue => by
    simp only [List.map_cons, Expr.mapTokens]
    exact .assign (hf.of_kind hname) (hf.of_kind hequals) (hvalue.relabel hf)
  | .operation h => .operation (h.relabel hf)

/-- The tier of an operator depends on its kind only. -/
theorem Operand.relabel (hf : Relabelling f) {tier : Option Tier} {ts : List Token} {e : Expr} :
    Operand tier ts e → Operand tier (ts.map f) (e.mapTokens f)
  | .unary h => .unary (h.relabel hf)
  | .tighter h => .tighter (h.relabel hf)
  | .binary hl hop hr => by
    rw [List.map_append, List.map_cons, node_mapTokens]
    exact .binary (hl.relabel hf) (by rwa [hf.kind]) (hr.relabel hf)

theorem Unary.relabel (hf : Relabelling f) {ts : List Token} {e : Expr} :
    Unary ts e → Unary (ts.map f) (e.mapTokens f)
  | .operator hop h => by
    simp only [List.map_cons, Expr.mapTokens]
    exact .operator (by rwa [hf.kind]) (h.relabel hf)
  | .call h => .call (h.relabel hf)

/-- A call keeps the number of its arguments. -/
theorem Call.relabel (hf : Relabelling f) {ts : List Token} {e : Expr} :
    Call ts e → Call (ts.map f) (e.mapTokens f)
  | .primary h => .primary (h.relabel hf)
  | .apply hcallee hleft hargs hcount hright => by
    simp only [List.map_append, List.map_cons, List.map_nil, Expr.mapTokens]
    exact .apply (hcallee.relabel hf) (hf.of_kind hleft) (Expression.relabelAll hf hargs)
      (by rwa [Expr.length_mapTokensAll]) (hf.of_kind hright)

theorem Primary.relabel (hf : Relabelling f) {ts : List Token} {e : Expr} :
    Primary ts e → Primary (ts.map f) (e.mapTokens f)
  | .literal h => by
    simp only [List.map_cons, List.map_nil, Expr.mapTokens]
    exact .literal (h.relabel hf)
  | .var h => by
    simp only [List.map_cons, List.map_nil, Expr.mapTokens]
    exact .var (hf.of_kind h)
  | .group hleft h hright => by
    simp only [List.map_append, List.map_cons, List.map_nil, Expr.mapTokens]
    exact .group (hf.of_kind hleft) (h.relabel hf) (hf.of_kind hright)

/-- The arguments of a call, between commas. -/
theorem Expression.relabelAll (hf : Relabelling f) {ts : List Token} {es : List Expr} :
    Separated Expression ts es → Separated Expression (ts.map f) (Expr.mapTokensAll f es)
  | .none => .none
  | .one h => .one (h.relabel hf)
  | .more h hcomma hrest => by
    rw [List.map_append, List.map_cons]
    exact .more (h.relabel hf) (hf.of_kind hcomma) (Expression.relabelAll hf hrest)

end

theorem Clause.relabel (hf : Relabelling f) {ts : List Token} {e : Option Expr} :
    Clause ts e → Clause (ts.map f) (e.map (Expr.mapTokens f))
  | .absent => .absent
  | .present h => .present (h.relabel hf)

/-! ## Statements -/

theorem Variable.relabel (hf : Relabelling f) {ts : List Token} {s : Stmt} :
    Variable ts s → Variable (ts.map f) (s.mapTokens f)
  | .bare hword hname hsemicolon => by
    simp only [List.map_cons, List.map_nil, Stmt.mapTokens, Option.map_none]
    exact .bare (hf.of_kind hword) (hf.of_kind hname) (hf.of_kind hsemicolon)
  | .initialized hword hname hequals h hsemicolon => by
    simp only [List.map_append, List.map_cons, List.map_nil, Stmt.mapTokens, Option.map_some]
    exact .initialized (hf.of_kind hword) (hf.of_kind hname) (hf.of_kind hequals) (h.relabel hf)
      (hf.of_kind hsemicolon)

theorem Initializer.relabel (hf : Relabelling f) {ts : List Token} {s : Option Stmt} :
    Initializer ts s → Initializer (ts.map f) (s.map (Stmt.mapTokens f))
  | .absent hsemicolon => .absent (hf.of_kind hsemicolon)
  | .var h => .var (h.relabel hf)
  | .expression h hsemicolon => by
    simp only [List.map_append, List.map_cons, List.map_nil, Stmt.mapTokens, Option.map_some]
    exact .expression (h.relabel hf) (hf.of_kind hsemicolon)

/-- The form that a for statement takes is built alike from changed parts. -/
theorem loopForm_mapTokens (cond : Option Expr) (body : Stmt) (first : Option Stmt)
    (increment : Option Expr) : (loopForm cond body first increment).mapTokens f =
      loopForm (cond.map (Expr.mapTokens f)) (body.mapTokens f) (first.map (Stmt.mapTokens f))
        (increment.map (Expr.mapTokens f)) := by
  cases cond <;> cases first <;> cases increment <;>
    simp [loopForm, loopForm.condition, Stmt.mapTokens, Stmt.mapTokensAll, Expr.mapTokens]

/-- Parameters are single identifiers and stay so. -/
theorem Parameter.relabelAll (hf : Relabelling f) {ts params : List Token}
    (h : Separated Parameter ts params) : Separated Parameter (ts.map f) (params.map f) := by
  induction h with
  | none => exact .none
  | one h =>
    cases h with
    | name hname => exact .one (.name (hf.of_kind hname))
  | more h hcomma _ ih =>
    cases h with
    | name hname => exact .more (.name (hf.of_kind hname)) (hf.of_kind hcomma) ih

mutual

/-- Changed tokens spell the changed statement. -/
theorem Statement.relabel (hf : Relabelling f) {fn d : Bool} {ts : List Token} {s : Stmt} :
    Statement fn d ts s → Statement fn d (ts.map f) (s.mapTokens f)
  | .expr h hsemicolon => by
    simp only [List.map_append, List.map_cons, List.map_nil, Stmt.mapTokens]
    exact .expr (h.relabel hf) (hf.of_kind hsemicolon)
  | .print hword h hsemicolon => by
    simp only [List.map_append, List.map_cons, List.map_nil, Stmt.mapTokens]
    exact .print (hf.of_kind hword) (h.relabel hf) (hf.of_kind hsemicolon)
  | .ret hword h hsemicolon => by
    simp only [List.map_append, List.map_cons, List.map_nil, Stmt.mapTokens]
    exact .ret (hf.of_kind hword) (h.relabel hf) (hf.of_kind hsemicolon)
  | .block hleft h hright => by
    simp only [List.map_append, List.map_cons, List.map_nil, Stmt.mapTokens]
    exact .block (hf.of_kind hleft) (h.relabel hf) (hf.of_kind hright)
  | .branch hword hleft hcond hright h => by
    simp only [List.map_append, List.map_cons, Stmt.mapTokens]
    exact .branch (hf.of_kind hword) (hf.of_kind hleft) (hcond.relabel hf) (hf.of_kind hright)
      (h.relabel hf)
  | .branchElse hword hleft hcond hright h hother h' => by
    simp only [List.map_append, List.map_cons, Stmt.mapTokens]
    exact .branchElse (hf.of_kind hword) (hf.of_kind hleft) (hcond.relabel hf) (hf.of_kind hright)
      (h.relabel hf) (hf.of_kind hother) (h'.relabel hf)
  | .loop hword hleft hcond hright h => by
    simp only [List.map_append, List.map_cons, Stmt.mapTokens]
    exact .loop (hf.of_kind hword) (hf.of_kind hleft) (hcond.relabel hf) (hf.of_kind hright)
      (h.relabel hf)
  | .forLoop hword hleft hfirst hcond hsemicolon hincrement hright h => by
    simp only [List.map_append, List.map_cons, loopForm_mapTokens]
    exact .forLoop (hf.of_kind hword) (hf.of_kind hleft) (hfirst.relabel hf) (hcond.relabel hf)
      (hf.of_kind hsemicolon) (hincrement.relabel hf) (hf.of_kind hright) (h.relabel hf)

/-- Names of parameters are told apart by their lexemes, which stay. -/
theorem Declaration.relabel (hf : Relabelling f) {fn : Bool} {ts : List Token} {s : Stmt} :
    Declaration fn ts s → Declaration fn (ts.map f) (s.mapTokens f)
  | .function hword hname hleft hparams hcount hnodup hright hopening h hclosing => by
    simp only [List.map_append, List.map_cons, List.map_nil, Stmt.mapTokens]
    exact .function (hf.of_kind hword) (hf.of_kind hname) (hf.of_kind hleft)
      (Parameter.relabelAll hf hparams) (by rwa [List.length_map])
      (by simpa [Function.comp_def, hf.lexeme] using hnodup) (hf.of_kind hright)
      (hf.of_kind hopening) (h.relabel hf) (hf.of_kind hclosing)
  | .var h => .var (h.relabel hf)
  | .statement h => .statement (h.relabel hf)

theorem Declarations.relabel (hf : Relabelling f) {fn : Bool} {ts : List Token}
    {ss : List Stmt} : Declarations fn ts ss →
    Declarations fn (ts.map f) (Stmt.mapTokensAll f ss)
  | .nil => .nil
  | .cons h hrest => by
    rw [List.map_append, Stmt.mapTokensAll]
    exact .cons (h.relabel hf) (hrest.relabel hf)

end

end Grammar

end Treewalk
