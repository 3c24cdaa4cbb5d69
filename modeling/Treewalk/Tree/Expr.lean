import Treewalk.Token.Basic

/-!
# Expressions
-/

namespace Treewalk

/-- An expression. Operators and names are kept as tokens, which know their line.

* `group` is an expression in parentheses;
* `call` keeps the closing parenthesis, at which errors of the call are reported. -/
inductive Expr where
  | literal (value : Literal)
  | var (name : Token)
  | assign (name : Token) (value : Expr)
  | unary (op : Token) (operand : Expr)
  | binary (lhs : Expr) (op : Token) (rhs : Expr)
  | logical (lhs : Expr) (op : Token) (rhs : Expr)
  | group (inner : Expr)
  | call (callee : Expr) (paren : Token) (args : List Expr)

namespace Expr

mutual

/-- The expression with every operator in front of its operands and in parentheses with them. -/
def text : Expr → String
  | literal value => value.text
  | var name => name.lexeme
  | assign name value => "(= " ++ name.lexeme ++ " " ++ value.text ++ ")"
  | unary op operand => "(" ++ op.lexeme ++ " " ++ operand.text ++ ")"
  | binary lhs op rhs => "(" ++ op.lexeme ++ " " ++ lhs.text ++ " " ++ rhs.text ++ ")"
  | logical lhs op rhs => "(" ++ op.lexeme ++ " " ++ lhs.text ++ " " ++ rhs.text ++ ")"
  | group inner => "(group " ++ inner.text ++ ")"
  | call callee _ args => "(call " ++ callee.text ++ textAll args ++ ")"

/-- The texts of the expressions, each behind a space. -/
def textAll : List Expr → String
  | [] => ""
  | e :: es => " " ++ e.text ++ textAll es

end

end Expr

end Treewalk
