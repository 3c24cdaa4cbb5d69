import Treewalk.Tree.Expr

/-!
# Statements
-/

namespace Treewalk

/-- A statement. A block opens a scope of its own; a function is declared in the scope that is
current. -/
inductive Stmt where
  | expr (e : Expr)
  | print (e : Expr)
  | var (name : Token) (initializer : Option Expr)
  | block (body : List Stmt)
  | branch (cond : Expr) (thenBranch : Stmt) (elseBranch : Option Stmt)
  | loop (cond : Expr) (body : Stmt)
  | function (name : Token) (params : List Token) (body : List Stmt)
  | ret (keyword : Token) (value : Option Expr)

namespace Stmt

/-- A loop with an initializer, a condition and an increment, each of which may be absent. The
increment runs behind the body, in a block with it; the initializer runs before the loop, in a block
with it; without a condition the loop goes on until something else ends it. -/
def forLoop (initializer : Option Stmt) (cond increment : Option Expr) (body : Stmt) : Stmt :=
  let round := match increment with
    | some e => block [body, expr e]
    | none => body
  let rounds := loop (cond.getD (.literal (.bool true))) round
  match initializer with
  | some first => block [first, rounds]
  | none => rounds

end Stmt

end Treewalk
