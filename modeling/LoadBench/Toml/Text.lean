import LoadBench.Toml.Value

/-!
# TOML strings and keys

Basic strings stand between double quotes and know escapes, literal strings stand between single
quotes and know none. Three quotes make either of them run over several lines.
-/

namespace LoadBench.Toml

def hexValue? (c : Char) : Option Nat :=
  if c.isDigit then some (c.toNat - '0'.toNat)
  else if 'a' ≤ c ∧ c ≤ 'f' then some (c.toNat - 'a'.toNat + 10)
  else if 'A' ≤ c ∧ c ≤ 'F' then some (c.toNat - 'A'.toNat + 10)
  else none

/-- A character that is written by exactly `n` hexadecimal digits, added to `high`. -/
def codePoint : (n : Nat) → (high : Nat) → Scan Char
  | 0, code, cs => if h : code.isValidChar then some (Char.ofNatAux code h, cs) else none
  | n + 1, code, c :: cs => do codePoint n (16 * code + (← hexValue? c)) cs
  | _ + 1, _, [] => none

def escaped : Scan Char
  | 'b' :: cs => some ('\x08', cs)
  | 't' :: cs => some ('\t', cs)
  | 'n' :: cs => some ('\n', cs)
  | 'f' :: cs => some ('\x0c', cs)
  | 'r' :: cs => some ('\r', cs)
  | '\"' :: cs => some ('\"', cs)
  | '\\' :: cs => some ('\\', cs)
  | 'u' :: cs => codePoint 4 0 cs
  | 'U' :: cs => codePoint 8 0 cs
  | _ => none

/-- The rest of a basic string, at most `fuel` characters. -/
def basicRest : (fuel : Nat) → Scan (List Char)
  | fuel + 1, c :: cs =>
    if c = '\"' then some ([], cs)
    else if c = '\\' then do
      let (e, cs) ← escaped cs
      let (s, cs) ← basicRest fuel cs
      return (e :: s, cs)
    else if isPlain c then do
      let (s, cs) ← basicRest fuel cs
      return (c :: s, cs)
    else none
  | _, _ => none

def literalRest : Scan (List Char)
  | [] => none
  | c :: cs =>
    if c = '\'' then some ([], cs)
    else if isPlain c then (literalRest cs).map fun (s, cs) => (c :: s, cs)
    else none

/-- The text after the line breaks and blanks that a backslash at the end of a line skips. -/
def skipBreaks : List Char → List Char
  | [] => []
  | c :: cs =>
    if isGap c || c = '\n' || (c = '\r' && cs.head? = some '\n') then skipBreaks cs else c :: cs

/-- Up to two quotes belong to a string of several lines, three or more close it, and then up to two
of them belong to it too: how many do, and whether it is closed. -/
def quoteRun (n : Nat) : Option (Nat × Bool) :=
  if n < 3 then some (n, false) else if n ≤ 5 then some (n - 3, true) else none

/-- The rest of a string of several lines between `quote`s, at most `fuel` characters. -/
def linesRest (quote : Char) : (fuel : Nat) → Scan (List Char)
  | fuel + 1, c :: cs =>
    if c = quote then do
      let run := (c :: cs).takeWhile (· = quote)
      let rest := (c :: cs).dropWhile (· = quote)
      let (kept, closed) ← quoteRun run.length
      if closed then
        return (List.replicate kept quote, rest)
      else
        let (s, rest) ← linesRest quote fuel rest
        return (List.replicate kept quote ++ s, rest)
    else if c = '\\' && quote = '\"' then
      match newline? (skipGaps cs) with
      | some rest => linesRest quote fuel (skipBreaks rest)
      | none => do
        let (e, cs) ← escaped cs
        let (s, cs) ← linesRest quote fuel cs
        return (e :: s, cs)
    else
      match newline? (c :: cs) with
      | some rest => do
        let (s, rest) ← linesRest quote fuel rest
        return ('\n' :: s, rest)
      | none =>
        if isPlain c then do
          let (s, cs) ← linesRest quote fuel cs
          return (c :: s, cs)
        else none
  | _, _ => none

/-- A string of several lines, after its opening quotes. A line break right there does not count. -/
def linesString (quote : Char) (cs : List Char) : Option (List Char × List Char) :=
  linesRest quote cs.length ((newline? cs).getD cs)

def string : Scan String := fun cs => do
  let (s, cs) ← match cs with
    | '\"' :: '\"' :: '\"' :: cs => linesString '\"' cs
    | '\'' :: '\'' :: '\'' :: cs => linesString '\'' cs
    | '\"' :: cs => basicRest cs.length cs
    | '\'' :: cs => literalRest cs
    | _ => none
  return (.ofList s, cs)

def isBare (c : Char) : Bool := c.isAlphanum || c = '-' || c = '_'

def simpleKey : Scan String
  | '\"' :: cs => do
    let (s, cs) ← basicRest cs.length cs
    return (.ofList s, cs)
  | '\'' :: cs => do
    let (s, cs) ← literalRest cs
    return (.ofList s, cs)
  | cs =>
    let bare := cs.takeWhile isBare
    if bare = [] then none else some (.ofList bare, cs.drop bare.length)

/-- A key of at most `fuel` parts between dots, with blanks around the parts. -/
def dottedKey : (fuel : Nat) → Scan (List String)
  | 0, _ => none
  | fuel + 1, cs => do
    let (k, cs) ← simpleKey (skipGaps cs)
    match skipGaps cs with
    | '.' :: cs =>
      let (ks, cs) ← dottedKey fuel cs
      return (k :: ks, cs)
    | cs => return ([k], cs)

end LoadBench.Toml
