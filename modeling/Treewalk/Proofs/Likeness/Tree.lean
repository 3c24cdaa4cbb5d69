import Mathlib.Data.List.Forall2
import Treewalk.Report
import Treewalk.Tree.Stmt

/-!
# Trees that are alike

Two trees are alike if they have the same shape and the tokens in the same places are alike. Which
tokens count as alike is a parameter, a `Likeness`: with `Likeness.same` trees that are alike are
equal, with `Likeness.upToLine` they may stand on different lines.
-/

namespace Treewalk

/-- Which tokens count as alike. They agree in all that grammar and evaluation look at. -/
structure Likeness where
  Like : Token → Token → Prop
  refl (t : Token) : Like t t
  kind {t u : Token} : Like t u → t.kind = u.kind
  lexeme {t u : Token} : Like t u → t.lexeme = u.lexeme
  literal {t u : Token} : Like t u → t.literal = u.literal

namespace Likeness

/-- Only equal tokens are alike. -/
def same : Likeness where
  Like := Eq
  refl _ := rfl
  kind h := h ▸ rfl
  lexeme h := h ▸ rfl
  literal h := h ▸ rfl

/-- Tokens are alike on whatever lines they stand. -/
def upToLine : Likeness where
  Like t u := t.kind = u.kind ∧ t.lexeme = u.lexeme ∧ t.literal = u.literal
  refl _ := ⟨rfl, rfl, rfl⟩
  kind h := h.1
  lexeme h := h.2.1
  literal h := h.2.2

end Likeness

variable {L : Likeness}

/-- Lists whose items are related one by one are so by any relation that follows for their own
items. -/
theorem forall₂_of_mem {α β : Type} {S T : α → β → Prop} {as : List α} {bs : List β}
    (h : List.Forall₂ S as bs) (himp : ∀ a ∈ as, ∀ b ∈ bs, S a b → T a b) :
    List.Forall₂ T as bs := by
  obtain ⟨hlength, hrelated⟩ := List.forall₂_iff_zip.1 h
  refine List.forall₂_iff_zip.2 ⟨hlength, fun hmem => ?_⟩
  obtain ⟨ha, hb⟩ := List.of_mem_zip hmem
  exact himp _ ha _ hb (hrelated hmem)

/-- Lists have the same image if their items have, one by one. -/
theorem map_eq_of_forall₂ {α β γ : Type} {R : α → β → Prop} {f : α → γ} {g : β → γ} {as : List α}
    {bs : List β} (h : List.Forall₂ R as bs) (hfg : ∀ a b, R a b → f a = g b) :
    as.map f = bs.map g := by
  rw [← List.forall₂_eq_eq_eq]
  exact List.rel_map hfg h

/-! ## Trees -/

inductive Expr.Like (L : Likeness) : Expr → Expr → Prop where
  | literal (value : Literal) : Like L (.literal value) (.literal value)
  | var {t u} : L.Like t u → Like L (.var t) (.var u)
  | assign {t u e e'} : L.Like t u → Like L e e' → Like L (.assign t e) (.assign u e')
  | unary {t u e e'} : L.Like t u → Like L e e' → Like L (.unary t e) (.unary u e')
  | binary {l l' t u r r'} : Like L l l' → L.Like t u → Like L r r' →
      Like L (.binary l t r) (.binary l' u r')
  | logical {l l' t u r r'} : Like L l l' → L.Like t u → Like L r r' →
      Like L (.logical l t r) (.logical l' u r')
  | group {e e'} : Like L e e' → Like L (.group e) (.group e')
  | call {e e' t u args args'} : Like L e e' → L.Like t u → List.Forall₂ (Expr.Like L) args args' →
      Like L (.call e t args) (.call e' u args')

inductive Stmt.Like (L : Likeness) : Stmt → Stmt → Prop where
  | expr {e e'} : e.Like L e' → Like L (.expr e) (.expr e')
  | print {e e'} : e.Like L e' → Like L (.print e) (.print e')
  | var {t u e e'} : L.Like t u → Option.Rel (Expr.Like L) e e' → Like L (.var t e) (.var u e')
  | block {body body'} : List.Forall₂ (Stmt.Like L) body body' →
      Like L (.block body) (.block body')
  | branch {e e' s s' r r'} : e.Like L e' → Like L s s' → Option.Rel (Stmt.Like L) r r' →
      Like L (.branch e s r) (.branch e' s' r')
  | loop {e e' s s'} : e.Like L e' → Like L s s' → Like L (.loop e s) (.loop e' s')
  | function {t u ps qs body body'} : L.Like t u → List.Forall₂ L.Like ps qs →
      List.Forall₂ (Stmt.Like L) body body' → Like L (.function t ps body) (.function u qs body')
  | ret {t u e e'} : L.Like t u → Option.Rel (Expr.Like L) e e' → Like L (.ret t e) (.ret u e')

mutual

/-- Every expression is like itself, because every token is. -/
theorem Expr.Like.refl : (e : Expr) → e.Like L e
  | .literal value => .literal value
  | .var name => .var (L.refl name)
  | .assign name e => .assign (L.refl name) (.refl e)
  | .unary op e => .unary (L.refl op) (.refl e)
  | .binary l op r => .binary (.refl l) (L.refl op) (.refl r)
  | .logical l op r => .logical (.refl l) (L.refl op) (.refl r)
  | .group e => .group (.refl e)
  | .call e paren args => .call (.refl e) (L.refl paren) (Expr.likeAll_refl args)

theorem Expr.likeAll_refl : (es : List Expr) → List.Forall₂ (Expr.Like L) es es
  | [] => .nil
  | e :: es => .cons (.refl e) (Expr.likeAll_refl es)

end

theorem Expr.likeOption_refl (e : Option Expr) : Option.Rel (Expr.Like L) e e := by
  cases e with
  | none => exact .none
  | some e => exact .some (.refl e)

theorem Likeness.refl_all (ts : List Token) : List.Forall₂ L.Like ts ts :=
  List.forall₂_same.2 fun t _ => L.refl t

mutual

/-- Every statement is like itself. -/
theorem Stmt.Like.refl : (s : Stmt) → s.Like L s
  | .expr e => .expr (.refl e)
  | .print e => .print (.refl e)
  | .var name e => .var (L.refl name) (Expr.likeOption_refl e)
  | .block body => .block (Stmt.likeAll_refl body)
  | .branch cond s none => .branch (.refl cond) (.refl s) .none
  | .branch cond s (some s') => .branch (.refl cond) (.refl s) (.some (.refl s'))
  | .loop cond s => .loop (.refl cond) (.refl s)
  | .function name params body =>
    .function (L.refl name) (Likeness.refl_all params) (Stmt.likeAll_refl body)
  | .ret keyword e => .ret (L.refl keyword) (Expr.likeOption_refl e)

theorem Stmt.likeAll_refl : (ss : List Stmt) → List.Forall₂ (Stmt.Like L) ss ss
  | [] => .nil
  | s :: ss => .cons (.refl s) (Stmt.likeAll_refl ss)

end

/-! ## Errors -/

inductive RuntimeError.Like (L : Likeness) : RuntimeError → RuntimeError → Prop where
  | undefinedVariable {t u} : L.Like t u → Like L (.undefinedVariable t) (.undefinedVariable u)
  | alreadyDefined {t u} : L.Like t u → Like L (.alreadyDefined t) (.alreadyDefined u)
  | unknownOperator {t u} : L.Like t u → Like L (.unknownOperator t) (.unknownOperator u)
  | operandMustBeNumber {t u} : L.Like t u →
      Like L (.operandMustBeNumber t) (.operandMustBeNumber u)
  | operandsMustBeNumbers {t u} : L.Like t u →
      Like L (.operandsMustBeNumbers t) (.operandsMustBeNumbers u)
  | invalidAddOperands {t u} : L.Like t u → Like L (.invalidAddOperands t) (.invalidAddOperands u)
  | notCallable {t u} : L.Like t u → Like L (.notCallable t) (.notCallable u)
  | arityMismatch {t u} (expected got : Nat) : L.Like t u →
      Like L (.arityMismatch t expected got) (.arityMismatch u expected got)

/-- Both end at tokens that are alike, and want the same there. -/
inductive Unexpected.Like (L : Likeness) : Unexpected → Unexpected → Prop where
  | mk {t u} (message : String) : L.Like t u → Like L ⟨t, message⟩ ⟨u, message⟩

inductive SyntaxError.Like (L : Likeness) : SyntaxError → SyntaxError → Prop where
  | unexpectedToken {a b} : a.Like L b → Like L (.unexpectedToken a) (.unexpectedToken b)
  | invalidAssignmentTarget {t u} : L.Like t u →
      Like L (.invalidAssignmentTarget t) (.invalidAssignmentTarget u)
  | tooManyArguments {t u} : L.Like t u → Like L (.tooManyArguments t) (.tooManyArguments u)
  | tooManyParameters {t u} : L.Like t u → Like L (.tooManyParameters t) (.tooManyParameters u)
  | duplicateParameter {t u} : L.Like t u → Like L (.duplicateParameter t) (.duplicateParameter u)
  | returnOutsideFunction {t u} : L.Like t u →
      Like L (.returnOutsideFunction t) (.returnOutsideFunction u)

/-- Errors that are alike up to nothing are equal. -/
theorem RuntimeError.Like.eq {e e' : RuntimeError} (h : e.Like .same e') : e = e' := by
  cases h <;> rename_i h <;> cases h <;> rfl

theorem Unexpected.Like.eq {a b : Unexpected} (h : a.Like .same b) : a = b := by
  cases h with
  | mk message h => cases h; rfl

theorem SyntaxError.Like.eq {e e' : SyntaxError} (h : e.Like .same e') : e = e' := by
  cases h with
  | unexpectedToken h => rw [h.eq]
  | _ h => cases h; rfl

/-- The message does not show where the token stands. -/
theorem RuntimeError.Like.message_eq {e e' : RuntimeError} (h : e.Like L e') :
    e.message = e'.message := by
  cases h with
  | arityMismatch => rfl
  | _ h =>
    -- A message quotes the lexeme of its token at most.
    rename_i t u
    obtain ⟨_, lexeme, _, _⟩ := t
    obtain ⟨_, lexeme', _, _⟩ := u
    obtain rfl : lexeme = lexeme' := L.lexeme h
    rfl

/-- The same holds of errors of the parser. -/
theorem SyntaxError.Like.message_eq {e e' : SyntaxError} (h : e.Like L e') :
    e.message = e'.message := by
  cases h with
  | unexpectedToken h => cases h; rfl
  | _ h =>
    rename_i t u
    obtain ⟨_, lexeme, _, _⟩ := t
    obtain ⟨_, lexeme', _, _⟩ := u
    obtain rfl : lexeme = lexeme' := L.lexeme h
    rfl

/-- Whether the error is at the end depends on the kind of its token. -/
theorem SyntaxError.Like.atEnd_eq {e e' : SyntaxError} (h : e.Like L e') : e.atEnd = e'.atEnd := by
  have htoken : L.Like e.token e'.token := by
    cases h with
    | unexpectedToken h => cases h; assumption
    | _ h => exact h
  simp only [atEnd, L.kind htoken]

/-- The diagnostics of errors that are alike. -/
inductive Diagnostic.Like (L : Likeness) : Diagnostic → Diagnostic → Prop where
  | lexical (e : LexicalError) : Like L e.diagnostic e.diagnostic
  | syntactic {e e'} : e.Like L e' → Like L (SyntaxError.diagnostic e) (SyntaxError.diagnostic e')
  | runtime {e e'} : e.Like L e' → Like L (RuntimeError.diagnostic e) (RuntimeError.diagnostic e')

theorem Diagnostic.Like.eq {d d' : Diagnostic} (h : d.Like .same d') : d = d' := by
  cases h with
  | lexical e => rfl
  | syntactic h => rw [h.eq]
  | runtime h => rw [h.eq]

theorem Diagnostic.Like.kind_eq {d d' : Diagnostic} (h : d.Like L d') : d.kind = d'.kind := by
  cases h <;> rfl

/-- Diagnostics that are alike can differ in their lines only. -/
theorem Diagnostic.Like.message_eq {d d' : Diagnostic} (h : d.Like L d') :
    d.message = d'.message := by
  cases h with
  | lexical e => rfl
  | syntactic h => simp only [SyntaxError.diagnostic, h.message_eq, h.atEnd_eq]
  | runtime h => exact h.message_eq

end Treewalk
