import LoadBench.Text.Unprintable

/-!
# Quoted text

A line that is quoted in a warning stands between double quotes. The quote, the backslash and the
usual controls get a backslash, and every other character that does not print by itself is written
by its number.
-/

namespace LoadBench

def hexDigits (n : Nat) : List Char := Nat.toDigits 16 n

def quotedChar (c : Char) : List Char :=
  if c = '\x00' then ['\\', '0']
  else if c = '\t' then ['\\', 't']
  else if c = '\n' then ['\\', 'n']
  else if c = '\r' then ['\\', 'r']
  else if c = '\"' then ['\\', '\"']
  else if c = '\\' then ['\\', '\\']
  else if prints c then [c]
  else ['\\', 'u', '\x7b'] ++ hexDigits c.toNat ++ ['\x7d']

def quoted (text : String) : String :=
  .ofList ('\"' :: (text.toList.flatMap quotedChar ++ ['\"']))

end LoadBench
