import LoadBench.Number.Numeral
import LoadBench.Text.Blank

/-!
# Replies of the operator

An empty line lets the bench proceed, and a number answers a question. Here `nan` and `inf` are
numbers too: what asks decides what it accepts.
-/

namespace LoadBench

inductive Reply where
  | proceed
  | value (v : Single)

namespace Reply

def ofChars (line : List Char) : Option Reply :=
  match trim line with
  | [] => some .proceed
  | text => (Single.read? text).map .value

def ofLine (line : String) : Option Reply := ofChars line.toList

end Reply

end LoadBench
