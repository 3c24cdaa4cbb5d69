/-!
# Kinds of tokens
-/

namespace Treewalk

/-- What a token is to the grammar. Words that are reserved have a kind each, whose name ends in
`Word`; `eof` marks the end of the input. -/
inductive TokenKind where
  | leftParen | rightParen | leftBrace | rightBrace
  | comma | dot | minus | plus | semicolon | slash | star
  | bang | bangEqual | equal | equalEqual | greater | greaterEqual | less | lessEqual
  | identifier | string | number
  | andWord | elseWord | falseWord | forWord | funWord | ifWord | nullWord | orWord | printWord
  | returnWord | trueWord | varWord | voidWord | whileWord
  | eof
deriving DecidableEq, Inhabited

namespace TokenKind

/-- Every kind, in the order of the declaration. -/
def all : List TokenKind :=
  [leftParen, rightParen, leftBrace, rightBrace, comma, dot, minus, plus, semicolon, slash, star,
    bang, bangEqual, equal, equalEqual, greater, greaterEqual, less, lessEqual,
    identifier, string, number, andWord, elseWord, falseWord, forWord, funWord, ifWord, nullWord,
    orWord, printWord, returnWord, trueWord, varWord, voidWord, whileWord, eof]

/-- The name of the kind, as the log shows it. -/
def name : TokenKind → String
  | leftParen => "LeftParen"
  | rightParen => "RightParen"
  | leftBrace => "LeftBrace"
  | rightBrace => "RightBrace"
  | comma => "Comma"
  | dot => "Dot"
  | minus => "Minus"
  | plus => "Plus"
  | semicolon => "Semicolon"
  | slash => "Slash"
  | star => "Star"
  | bang => "Bang"
  | bangEqual => "BangEqual"
  | equal => "Equal"
  | equalEqual => "EqualEqual"
  | greater => "Greater"
  | greaterEqual => "GreaterEqual"
  | less => "Less"
  | lessEqual => "LessEqual"
  | identifier => "Identifier"
  | string => "String"
  | number => "Number"
  | andWord => "And"
  | elseWord => "Else"
  | falseWord => "False"
  | forWord => "For"
  | funWord => "Fun"
  | ifWord => "If"
  | nullWord => "Null"
  | orWord => "Or"
  | printWord => "Print"
  | returnWord => "Return"
  | trueWord => "True"
  | varWord => "Var"
  | voidWord => "Void"
  | whileWord => "While"
  | eof => "Eof"

/-- The kind with a given name. -/
def ofName? (name : String) : Option TokenKind :=
  all.find? fun kind => kind.name == name

/-- How the kind is written: the symbol or the reserved word itself, or a description where the
kind has many spellings. -/
def text : TokenKind → String
  | leftParen => "("
  | rightParen => ")"
  | leftBrace => "\x7b"
  | rightBrace => "\x7d"
  | comma => ","
  | dot => "."
  | minus => "-"
  | plus => "+"
  | semicolon => ";"
  | slash => "/"
  | star => "*"
  | bang => "!"
  | bangEqual => "!="
  | equal => "="
  | equalEqual => "=="
  | greater => ">"
  | greaterEqual => ">="
  | less => "<"
  | lessEqual => "<="
  | identifier => "identifier"
  | string => "string"
  | number => "number"
  | andWord => "and"
  | elseWord => "else"
  | falseWord => "false"
  | forWord => "for"
  | funWord => "fun"
  | ifWord => "if"
  | nullWord => "null"
  | orWord => "or"
  | printWord => "print"
  | returnWord => "return"
  | trueWord => "true"
  | varWord => "var"
  | voidWord => "void"
  | whileWord => "while"
  | eof => "end of input"

/-- The kinds of the reserved words. -/
def reserved : List TokenKind :=
  [andWord, elseWord, falseWord, forWord, funWord, ifWord, nullWord, orWord, printWord, returnWord,
    trueWord, varWord, voidWord, whileWord]

/-- The kind of a whole word. -/
def ofWord (word : List Char) : TokenKind :=
  (reserved.find? fun kind => kind.text.toList == word).getD identifier

end TokenKind

end Treewalk
