import Treewalk.Proofs.Likeness.Run

/-!
# Evaluation of trees that are alike

The evaluator goes through trees that are alike in step, and so do calls of functions that are
alike: tokens are looked at for their kinds and lexemes only, and otherwise they end up in errors.
-/

namespace Treewalk

variable {L : Likeness} {ρ : Pairing}

/-! ## Operators -/

namespace Operator

variable {t u : Token} {l l' r r' v v' : Value}

/-- An operator in front looks at the number or the truth of its operand. -/
theorem unary_like (ht : L.Like t u) (hv : v.Like L ρ v') :
    ResultRel (RuntimeError.Like L) (Value.Like L ρ) (unary t v) (unary u v') := by
  unfold unary
  rw [L.kind ht, hv.number?_eq, hv.truthy_eq]
  split
  · split
    · exact .ok (.number _)
    · exact .error (.operandMustBeNumber ht)
  · exact .ok (.bool _)
  · exact .error (.unknownOperator ht)

/-- Addition is the one operator that looks at the kinds of its operands beyond numbers. -/
theorem add_like (ht : L.Like t u) (hl : l.Like L ρ l') (hr : r.Like L ρ r') :
    ResultRel (RuntimeError.Like L) (Value.Like L ρ) (add t l r) (add u l' r') := by
  cases hl with
  | number x =>
    cases hr with
    | number y => exact .ok (.number _)
    | _ => exact .error (.invalidAddOperands ht)
  | string s =>
    cases hr with
    | string s' => exact .ok (.string _)
    | _ => exact .error (.invalidAddOperands ht)
  | _ => exact .error (.invalidAddOperands ht)

/-- Whatever is computed from two numbers is computed from the same two numbers, and an operator
that is missing in the table is missing on both sides. -/
theorem onNumbers_like (operation? : TokenKind → Option (Float → Float → Literal))
    (ht : L.Like t u) (hl : l.Like L ρ l') (hr : r.Like L ρ r') :
    ResultRel (RuntimeError.Like L) (Value.Like L ρ) (onNumbers operation? t l r)
      (onNumbers operation? u l' r') := by
  unfold onNumbers
  rw [hl.number?_eq, hr.number?_eq, L.kind ht]
  split
  · split
    · exact .ok (.ofLiteral _)
    · exact .error (.unknownOperator ht)
  · exact .error (.operandsMustBeNumbers ht)

/-- Equality of values that are alike is the same, because the pairing of scopes is one to one. -/
theorem binary_like (ht : L.Like t u) (hl : l.Like L ρ l') (hr : r.Like L ρ r') :
    ResultRel (RuntimeError.Like L) (Value.Like L ρ) (binary t l r) (binary u l' r') := by
  unfold binary
  rw [L.kind ht, hl.same_eq hr]
  split
  case h_1 => exact add_like ht hl hr
  case h_9 | h_10 => exact .ok (.bool _)
  case h_11 => exact .error (.unknownOperator ht)
  all_goals exact onNumbers_like _ ht hl hr

theorem decided_like (ht : L.Like t u) (hv : v.Like L ρ v') :
    ResultRel (RuntimeError.Like L) Eq (decided t v) (decided u v') := by
  unfold decided
  rw [L.kind ht, hv.truthy_eq]
  split
  · exact .ok rfl
  · exact .ok rfl
  · exact .error (.unknownOperator ht)

/-- Values that are alike are both callable or both are not, and take the same number of arguments.
-/
theorem callee_like (ht : L.Like t u) (hv : v.Like L ρ v') (args : Nat) :
    ResultRel (RuntimeError.Like L) (Callable.Like L ρ) (callee t v args) (callee u v' args) := by
  unfold callee
  obtain ⟨hc, hc'⟩ | ⟨c, c', hc, hc', hlike⟩ := optionRel_cases hv.callable?
  · rw [hc, hc']
    exact .error (.notCallable ht)
  · simp only [hc, hc', hlike.arity_eq]
    split
    · exact .ok hlike
    · exact .error (.arityMismatch _ _ ht)

end Operator

/-! ## Trees -/

/-- How statements end alike. -/
inductive Flow.Like (L : Likeness) (ρ : Pairing) : Flow → Flow → Prop where
  | next : Like L ρ .next .next
  | returned {v v'} : v.Like L ρ v' → Like L ρ (.returned v) (.returned v')

/-- Calls of functions that are alike, with arguments that are alike, are alike. -/
def CallsLike (L : Likeness) (apply apply' : Callable → List Value → Run Value) : Prop :=
  ∀ ρ c c' args args', c.Like L ρ c' → List.Forall₂ (Value.Like L ρ) args args' →
    (apply c args).Like L ρ (Value.Like L) (apply' c' args')

section
variable {apply apply' : Callable → List Value → Run Value}

mutual

/-- Expressions that are alike are evaluated in step. The pairing grows on the way, and values found
earlier stay alike under the larger one. -/
theorem evaluate_like (h : CallsLike L apply apply') : (e : Expr) → {e' : Expr} → e.Like L e' →
    {ρ : Pairing} → (evaluate apply e).Like L ρ (Value.Like L) (evaluate apply' e')
  | .literal value, _, .literal _, _ => by
    rw [evaluate, evaluate]
    exact .pure fun _ _ => .ofLiteral value
  | .var name, _, .var hname, _ => by
    rw [evaluate, evaluate]
    exact .get hname
  | .assign name e, _, .assign hname he, _ => by
    rw [evaluate, evaluate]
    refine .bind (evaluate_like h e he) fun σ v v' _ hv => ?_
    exact .bind (.assign hname hv) fun τ _ _ hle _ =>
      .pure fun _ hle' => hv.mono (le_trans hle hle')
  | .unary op e, _, .unary hop he, _ => by
    rw [evaluate, evaluate]
    refine .bind (evaluate_like h e he) fun σ v v' _ hv => ?_
    exact .ofExcept fun _ hle => Operator.unary_like hop (hv.mono hle)
  | .binary l op r, _, .binary hl hop hr, _ => by
    rw [evaluate, evaluate]
    refine .bind (evaluate_like h l hl) fun σ x x' _ hx => ?_
    refine .bind (evaluate_like h r hr) fun τ y y' hle hy => ?_
    exact .ofExcept fun _ hle' =>
      Operator.binary_like hop (hx.mono (le_trans hle hle')) (hy.mono hle')
  -- The right operands are evaluated on both sides or on none.
  | .logical l op r, _, .logical hl hop hr, _ => by
    rw [evaluate, evaluate]
    refine .bind (evaluate_like h l hl) fun σ x x' _ hx => ?_
    refine .bind (R := fun _ => Eq) (.ofExcept fun _ hle => Operator.decided_like hop (hx.mono hle))
      fun τ b b' hle hb => ?_
    subst hb
    split
    · exact .pure fun _ hle' => hx.mono (le_trans hle hle')
    · exact evaluate_like h r hr
  | .group e, _, .group he, _ => by
    rw [evaluate, evaluate]
    exact evaluate_like h e he
  -- The pairing may grow in the callee, in the arguments and in the call itself.
  | .call e paren args, _, .call he hparen hargs, _ => by
    rw [evaluate, evaluate]
    refine .bind (evaluate_like h e he) fun σ f f' _ hf => ?_
    refine .bind (evaluateAll_like h args hargs) fun τ vs vs' hle hvs => ?_
    rw [hvs.length_eq]
    refine .bind (.ofExcept fun _ hle' =>
      Operator.callee_like hparen (hf.mono (le_trans hle hle')) vs'.length) fun υ c c' hle' hc => ?_
    refine .bind (.note _ _) fun υ' _ _ hle'' _ => ?_
    exact h υ' c c' vs vs' (hc.mono hle'') (hvs.imp fun _ _ hv => hv.mono (le_trans hle' hle''))

theorem evaluateAll_like (h : CallsLike L apply apply') : (es : List Expr) → {es' : List Expr} →
    List.Forall₂ (Expr.Like L) es es' → {ρ : Pairing} →
    (evaluateAll apply es).Like L ρ (fun σ => List.Forall₂ (Value.Like L σ))
      (evaluateAll apply' es')
  | [], _, .nil, _ => by
    rw [evaluateAll, evaluateAll]
    exact .pure fun _ _ => .nil
  | e :: es, _, .cons he hes, _ => by
    rw [evaluateAll, evaluateAll]
    refine .bind (evaluate_like h e he) fun σ v v' _ hv => ?_
    refine .bind (evaluateAll_like h es hes) fun τ vs vs' hle hvs => ?_
    exact .pure fun _ hle' =>
      .cons (hv.mono (le_trans hle hle')) (hvs.imp fun _ _ hw => hw.mono hle')

end

/-- A missing initial value or return value is null on both sides. -/
theorem evaluateOption_like (h : CallsLike L apply apply') {e e' : Option Expr}
    (he : Option.Rel (Expr.Like L) e e') :
    (evaluateOption apply e).Like L ρ (Value.Like L) (evaluateOption apply' e') := by
  cases he with
  | none => exact .pure fun _ _ => .null
  | some he => exact evaluate_like h _ he

/-- Loops go round equally often with the same fuel. -/
theorem repeatWhile_like {cond cond' : Run Value} {body body' : Run Flow}
    (hcond : cond.Like L ρ (Value.Like L) cond') (hbody : body.Like L ρ (Flow.Like L) body')
    (fuel : Nat) :
    (repeatWhile cond body fuel).Like L ρ (Flow.Like L) (repeatWhile cond' body' fuel) := by
  induction fuel with
  | zero => exact .exhausted
  | succ fuel ih =>
    refine .bind hcond fun σ v v' hle hv => ?_
    -- The conditions are both true or both not.
    rw [hv.truthy_eq]
    split
    · refine .bind (hbody.mono hle) fun τ flow flow' hle' hflow => ?_
      cases hflow with
      | next => exact ih.mono (le_trans hle hle')
      | returned hv => exact .pure fun _ hle => .returned (hv.mono hle)
    · exact .pure fun _ _ => .next

mutual

/-- Statements that are alike are executed in step. -/
theorem execute_like (h : CallsLike L apply apply') {fuel : Nat} : (s : Stmt) → {s' : Stmt} →
    s.Like L s' → {ρ : Pairing} →
    (execute apply fuel s).Like L ρ (Flow.Like L) (execute apply' fuel s')
  | .expr e, _, .expr he, _ => by
    rw [execute, execute]
    exact .bind (evaluate_like h e he) fun _ _ _ _ _ => .pure fun _ _ => .next
  | .print e, _, .print he, _ => by
    rw [execute, execute]
    refine .bind (evaluate_like h e he) fun σ v v' _ hv => ?_
    rw [hv.text_eq]
    exact .bind (.write _) fun _ _ _ _ _ => .pure fun _ _ => .next
  | .var name e, _, .var hname he, _ => by
    rw [execute, execute]
    refine .bind (evaluateOption_like h he) fun σ v v' _ hv => ?_
    refine .bind .currentScope fun τ i i' hle hpair => ?_
    exact .bind (.define hpair hname (hv.mono hle)) fun _ _ _ _ _ => .pure fun _ _ => .next
  | .block body, _, .block hbody, _ => by
    rw [execute, execute]
    refine .bind .currentScope fun σ i i' _ hpair => ?_
    refine .bind (.openScope hpair) fun τ j j' _ hpair' => ?_
    exact .within hpair' (executeAll_like h body hbody)
  | .branch cond s none, _, .branch hcond hs .none, _ => by
    rw [execute, execute]
    refine .bind (evaluate_like h cond hcond) fun σ v v' _ hv => ?_
    rw [hv.truthy_eq]
    split
    · exact execute_like h s hs
    · exact .pure fun _ _ => .next
  | .branch cond s (some r), _, .branch hcond hs (.some hr), _ => by
    rw [execute, execute]
    refine .bind (evaluate_like h cond hcond) fun σ v v' _ hv => ?_
    rw [hv.truthy_eq]
    split
    · exact execute_like h s hs
    · exact execute_like h r hr
  | .loop cond s, _, .loop hcond hs, _ => by
    rw [execute, execute]
    exact repeatWhile_like (evaluate_like h cond hcond) (execute_like h s hs) fuel
  | .function name params body, _, .function hname hparams hbody, _ => by
    rw [execute, execute]
    refine .bind .currentScope fun σ i i' _ hpair => ?_
    -- The values are alike because the scopes of the declarations correspond.
    exact .bind (.define hpair hname (.callable (.function hname hparams hbody hpair)))
      fun _ _ _ _ _ => .pure fun _ _ => .next
  | .ret keyword e, _, .ret _ he, _ => by
    rw [execute, execute]
    refine .bind (evaluateOption_like h he) fun σ v v' _ hv => ?_
    exact .pure fun _ hle => .returned (hv.mono hle)

/-- Statements behind a return are skipped on both sides. -/
theorem executeAll_like (h : CallsLike L apply apply') {fuel : Nat} : (ss : List Stmt) →
    {ss' : List Stmt} → List.Forall₂ (Stmt.Like L) ss ss' → {ρ : Pairing} →
    (executeAll apply fuel ss).Like L ρ (Flow.Like L) (executeAll apply' fuel ss')
  | [], _, .nil, _ => by
    rw [executeAll, executeAll]
    exact .pure fun _ _ => .next
  | s :: ss, _, .cons hs hss, _ => by
    rw [executeAll, executeAll]
    refine .bind (execute_like h s hs) fun σ flow flow' _ hflow => ?_
    cases hflow with
    | next => exact executeAll_like h ss hss
    | returned hv => exact .pure fun _ hle => .returned (hv.mono hle)

end

end

/-! ## Calls -/

/-- A native function looks at the texts of its arguments and at the clock, which are the same. -/
theorem nativeCall_like (f : Native) {args args' : List Value}
    (hargs : List.Forall₂ (Value.Like L ρ) args args') :
    (f.call args).Like L ρ (Value.Like L) (f.call args') := by
  have htexts : args.map Value.text = args'.map Value.text := by
    rw [← List.forall₂_eq_eq_eq, List.forall₂_map_left_iff, List.forall₂_map_right_iff]
    exact hargs.imp fun _ _ hv => hv.text_eq
  cases f with
  | clock =>
    refine .bind .readClock fun σ x y _ hxy => ?_
    subst hxy
    exact .pure fun _ _ => .number x
  | write =>
    refine .bind (R := fun _ _ _ => True) ?_ fun _ _ _ _ _ => .pure fun _ _ => .null
    -- The arguments are written one by one, so that the induction is on them and not on the list of
    -- all texts.
    clear htexts
    induction hargs with
    | nil => exact .pure fun _ _ => trivial
    | @cons v v' _ _ hv _ ih =>
      have hwrite : (Run.write (.plain v.text)).Like L ρ (fun _ _ _ => True)
          (Run.write (.plain v'.text)) := by
        rw [hv.text_eq]
        exact .write _
      exact .bind hwrite fun _ _ _ hle _ => ih.mono hle
  | writeLine =>
    unfold Native.call
    simp only [htexts]
    exact .bind (.write _) fun _ _ _ _ _ => .pure fun _ _ => .null

/-- Parameters are bound in scopes that correspond, and one that cannot be bound fails on both
sides. -/
theorem bindParams_like {i i' : ScopeId} (hpair : ρ.Pairs i i') {ps qs : List Token}
    (hparams : List.Forall₂ L.Like ps qs) {args args' : List Value}
    (hargs : List.Forall₂ (Value.Like L ρ) args args') :
    (bindParams i ps args).Like L ρ (fun _ _ _ => True) (bindParams i' qs args') := by
  induction hparams generalizing ρ args args' with
  | nil => exact .pure fun _ _ => trivial
  | cons hp _ ih =>
    cases hargs with
    | nil => exact .pure fun _ _ => trivial
    | cons hv hvs =>
      refine .bind (.define hpair hp hv) fun σ _ _ hle _ => ?_
      exact ih (hle i i' hpair) (hvs.imp fun _ _ hw => hw.mono hle)

/-- Calls with the same fuel are alike, by induction on the fuel. Each opens a scope, and the two
new scopes become a pair. -/
theorem call_like (fuel : Nat) : CallsLike L (call fuel) (call fuel) := by
  induction fuel with
  | zero =>
    intro ρ c c' args args' hc hargs
    cases hc with
    | native f => exact nativeCall_like f hargs
    | function => exact .exhausted
  | succ fuel ih =>
    intro ρ c c' args args' hc hargs
    cases hc with
    | native f => exact nativeCall_like f hargs
    | @function f f' hname hparams hbody hclosure =>
      refine .bind (.openScope hclosure) fun σ i i' hle hpair => ?_
      have hargs' := hargs.imp fun _ _ hv => hv.mono hle
      refine .bind (bindParams_like hpair hparams hargs') fun τ _ _ hle' _ => ?_
      refine .bind (.within (hle' i i' hpair) (executeAll_like ih f.body hbody))
        fun υ flow flow' _ hflow => ?_
      cases hflow with
      | next => exact .pure fun _ _ => .null
      | returned hv => exact .pure fun _ hle => hv.mono hle

end Treewalk
