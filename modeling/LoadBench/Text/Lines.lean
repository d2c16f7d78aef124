/-!
# Lines

A line ends with a line feed, and a carriage return right before it belongs to the end too. Text
after the last line feed is a line if there is any.
-/

namespace LoadBench

def lines : List Char → List (List Char)
  | [] => []
  | '\n' :: cs => [] :: lines cs
  | '\r' :: '\n' :: cs => [] :: lines cs
  | c :: cs =>
    match lines cs with
    | [] => [[c]]
    | l :: ls => (c :: l) :: ls

end LoadBench
