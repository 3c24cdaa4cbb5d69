/-!
# Writing

All that a program displays is a sequence of writes.
-/

namespace Treewalk

/-- One write: a text as it is, or a text that ends its line. -/
inductive Write where
  | plain (s : String)
  | line (s : String)
deriving DecidableEq

/-- The characters that a write displays. -/
def Write.text : Write → String
  | plain s => s
  | line s => s ++ "\n"

end Treewalk
