import Treewalk.Tree.Stmt

/-!
# The grammar

Which tokens spell which trees, said without a parser. Each relation below is a symbol of the
grammar and each of its rules a production: `Expression ts e` says that the tokens `ts`, all of
them, spell the expression `e`. Besides the shape of the tokens the rules ask that

* the token of a number or a string carries its value;
* what is assigned to is a bare name;
* a call has at most `maxItems` arguments, a function as many parameters, with different names;
* a return stands in the body of a function.

The rules leave no choice: binary operators group from the left because only their left operand may
be of the same tier, and an `else` belongs to the nearest `if` because a branch in front of it must
not end in an `if` that still lacks one.
-/

namespace Treewalk.Grammar

/-- The largest number of arguments of a call and of parameters of a function. -/
def maxItems : Nat := 255

/-- Any number of items, with a comma between any two. -/
inductive Separated {α : Type} (Item : List Token → α → Prop) : List Token → List α → Prop where
  | none : Separated Item [] []
  | one {ts a} : Item ts a → Separated Item ts [a]
  | more {ts a comma us b bs} :
      Item ts a → comma.kind = .comma → Separated Item us (b :: bs) →
      Separated Item (ts ++ comma :: us) (a :: b :: bs)

/-! ## Expressions -/

/-- The tiers of binary operators. -/
inductive Tier where
  | or
  | and
  | equality
  | comparison
  | term
  | factor

namespace Tier

def operators : Tier → List TokenKind
  | or => [.orWord]
  | and => [.andWord]
  | equality => [.bangEqual, .equalEqual]
  | comparison => [.greater, .greaterEqual, .less, .lessEqual]
  | term => [.minus, .plus]
  | factor => [.slash, .star]

/-- The expression that an operator of the tier makes of its operands. -/
def node : Tier → Expr → Token → Expr → Expr
  | or => .logical
  | and => .logical
  | equality => .binary
  | comparison => .binary
  | term => .binary
  | factor => .binary

/-- The tier that binds next tighter. There is none above `factor`, whose operands are unary. -/
def tighter? : Tier → Option Tier
  | or => some and
  | and => some equality
  | equality => some comparison
  | comparison => some term
  | term => some factor
  | factor => none

end Tier

/-- The token denotes a value on its own. -/
inductive Denotes : Token → Literal → Prop where
  | falseWord {t} : t.kind = .falseWord → Denotes t (.bool false)
  | trueWord {t} : t.kind = .trueWord → Denotes t (.bool true)
  | nullWord {t} : t.kind = .nullWord → Denotes t .null
  | number {t value} : t.kind = .number → t.literal = some value → Denotes t value
  | string {t value} : t.kind = .string → t.literal = some value → Denotes t value

mutual

/-- An expression: an assignment, which groups from the right, or an expression without one. -/
inductive Expression : List Token → Expr → Prop where
  | assign {name equals ts value} :
      name.kind = .identifier → equals.kind = .equal → Expression ts value →
      Expression (name :: equals :: ts) (.assign name value)
  | operation {ts e} : Operand (some .or) ts e → Expression ts e

/-- An expression of a tier of binary operators, or of none of them. -/
inductive Operand : Option Tier → List Token → Expr → Prop where
  | unary {ts e} : Unary ts e → Operand none ts e
  | tighter {tier ts e} : Operand tier.tighter? ts e → Operand (some tier) ts e
  | binary {tier ls l op rs r} :
      Operand (some tier) ls l → op.kind ∈ tier.operators → Operand tier.tighter? rs r →
      Operand (some tier) (ls ++ op :: rs) (tier.node l op r)

/-- A chain of calls behind unary operators. -/
inductive Unary : List Token → Expr → Prop where
  | operator {op ts e} :
      op.kind = .bang ∨ op.kind = .minus → Unary ts e → Unary (op :: ts) (.unary op e)
  | call {ts e} : Call ts e → Unary ts e

/-- A primary expression, called any number of times. -/
inductive Call : List Token → Expr → Prop where
  | primary {ts e} : Primary ts e → Call ts e
  | apply {cs callee left as args right} :
      Call cs callee → left.kind = .leftParen → Separated Expression as args →
      args.length ≤ maxItems → right.kind = .rightParen →
      Call (cs ++ left :: (as ++ [right])) (.call callee right args)

/-- A literal, a name, or an expression in parentheses. -/
inductive Primary : List Token → Expr → Prop where
  | literal {t value} : Denotes t value → Primary [t] (.literal value)
  | var {name} : name.kind = .identifier → Primary [name] (.var name)
  | group {left ts e right} :
      left.kind = .leftParen → Expression ts e → right.kind = .rightParen →
      Primary (left :: (ts ++ [right])) (.group e)

end

/-- An expression that may be absent. -/
inductive Clause : List Token → Option Expr → Prop where
  | absent : Clause [] none
  | present {ts e} : Expression ts e → Clause ts (some e)

/-! ## Statements -/

/-- A variable and its initializer, if it has one. -/
inductive Variable : List Token → Stmt → Prop where
  | bare {word name semicolon} :
      word.kind = .varWord → name.kind = .identifier → semicolon.kind = .semicolon →
      Variable [word, name, semicolon] (.var name none)
  | initialized {word name equals ts e semicolon} :
      word.kind = .varWord → name.kind = .identifier → equals.kind = .equal → Expression ts e →
      semicolon.kind = .semicolon →
      Variable (word :: name :: equals :: (ts ++ [semicolon])) (.var name (some e))

/-- The first clause of a loop with three clauses, with its semicolon. -/
inductive Initializer : List Token → Option Stmt → Prop where
  | absent {semicolon} : semicolon.kind = .semicolon → Initializer [semicolon] none
  | var {ts s} : Variable ts s → Initializer ts (some s)
  | expression {ts e semicolon} :
      Expression ts e → semicolon.kind = .semicolon →
      Initializer (ts ++ [semicolon]) (some (.expr e))

/-- What a loop with three clauses means. -/
def loopForm (cond : Option Expr) (body : Stmt) : (first : Option Stmt) →
    (increment : Option Expr) → Stmt
  | none, none => .loop (condition cond) body
  | none, some e => .loop (condition cond) (.block [body, .expr e])
  | some s, none => .block [s, .loop (condition cond) body]
  | some s, some e => .block [s, .loop (condition cond) (.block [body, .expr e])]
where
  /-- A loop without a condition goes on for ever. -/
  condition : Option Expr → Expr
    | none => .literal (.bool true)
    | some e => e

/-- The name of a parameter. -/
inductive Parameter : List Token → Token → Prop where
  | name {name} : name.kind = .identifier → Parameter [name] name

mutual

/-- A statement. The first index says whether it stands in the body of a function, the second one
whether it ends in an `if` without an `else`, so that an `else` behind it would belong to it. -/
inductive Statement : (inFunction dangling : Bool) → List Token → Stmt → Prop where
  | expr {fn ts e semicolon} :
      Expression ts e → semicolon.kind = .semicolon →
      Statement fn false (ts ++ [semicolon]) (.expr e)
  | print {fn word ts e semicolon} :
      word.kind = .printWord → Expression ts e → semicolon.kind = .semicolon →
      Statement fn false (word :: (ts ++ [semicolon])) (.print e)
  | ret {word ts value semicolon} :
      word.kind = .returnWord → Clause ts value → semicolon.kind = .semicolon →
      Statement true false (word :: (ts ++ [semicolon])) (.ret word value)
  | block {fn left ts body right} :
      left.kind = .leftBrace → Declarations fn ts body → right.kind = .rightBrace →
      Statement fn false (left :: (ts ++ [right])) (.block body)
  | branch {fn d word left cs cond right ts s} :
      word.kind = .ifWord → left.kind = .leftParen → Expression cs cond → right.kind = .rightParen →
      Statement fn d ts s →
      Statement fn true (word :: left :: (cs ++ right :: ts)) (.branch cond s none)
  | branchElse {fn d word left cs cond right ts s other us s'} :
      word.kind = .ifWord → left.kind = .leftParen → Expression cs cond → right.kind = .rightParen →
      Statement fn false ts s → other.kind = .elseWord → Statement fn d us s' →
      Statement fn d (word :: left :: (cs ++ right :: (ts ++ other :: us)))
        (.branch cond s (some s'))
  | loop {fn d word left cs cond right ts s} :
      word.kind = .whileWord → left.kind = .leftParen → Expression cs cond →
      right.kind = .rightParen → Statement fn d ts s →
      Statement fn d (word :: left :: (cs ++ right :: ts)) (.loop cond s)
  | forLoop {fn d word left fs first cs cond semicolon is increment right ts s} :
      word.kind = .forWord → left.kind = .leftParen → Initializer fs first → Clause cs cond →
      semicolon.kind = .semicolon → Clause is increment → right.kind = .rightParen →
      Statement fn d ts s →
      Statement fn d (word :: left :: (fs ++ (cs ++ semicolon :: (is ++ right :: ts))))
        (loopForm cond s first increment)

/-- A function, a variable or a statement. -/
inductive Declaration : (inFunction : Bool) → List Token → Stmt → Prop where
  | function {fn word name left ps params right opening ts body closing} :
      word.kind = .funWord → name.kind = .identifier → left.kind = .leftParen →
      Separated Parameter ps params → params.length ≤ maxItems → (params.map Token.lexeme).Nodup →
      right.kind = .rightParen → opening.kind = .leftBrace → Declarations true ts body →
      closing.kind = .rightBrace →
      Declaration fn (word :: name :: left :: (ps ++ right :: opening :: (ts ++ [closing])))
        (.function name params body)
  | var {fn ts s} : Variable ts s → Declaration fn ts s
  | statement {fn d ts s} : Statement fn d ts s → Declaration fn ts s

/-- Any number of declarations. -/
inductive Declarations : (inFunction : Bool) → List Token → List Stmt → Prop where
  | nil {fn} : Declarations fn [] []
  | cons {fn ts s us ss} :
      Declaration fn ts s → Declarations fn us ss → Declarations fn (ts ++ us) (s :: ss)

end

/-- A program. -/
def Program (ts : List Token) (statements : List Stmt) : Prop :=
  Declarations false ts statements

end Treewalk.Grammar
