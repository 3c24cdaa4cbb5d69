import Treewalk.Text.Hidden

/-!
# Quoted texts

A quoted text stands between double quotes. Quotes, backslashes and hidden characters inside it
are written as escapes, so that the quoted text shows every character of the text.
-/

namespace Treewalk.Text.Quoted

/-- A character as it stands in a quoted text. -/
def escape (c : Char) : List Char :=
  match c with
  | '\x00' => ['\\', '0']
  | '\t' => ['\\', 't']
  | '\r' => ['\\', 'r']
  | '\n' => ['\\', 'n']
  | '\\' => ['\\', '\\']
  | '"' => ['\\', '"']
  | c =>
    if isHidden c then '\\' :: 'u' :: '\x7b' :: (Nat.toDigits 16 c.toNat ++ ['\x7d']) else [c]

/-- The quoted form of a text. -/
def encode (text : List Char) : List Char :=
  '"' :: (text.flatMap escape ++ ['"'])

end Quoted

/-- The quoted form of a text. -/
def quote (text : String) : String :=
  String.ofList (Quoted.encode text.toList)

end Treewalk.Text
