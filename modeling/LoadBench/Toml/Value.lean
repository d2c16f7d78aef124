import LoadBench.Number.Numeral

/-!
# TOML values

The tree that a configuration document describes. Keys keep the order in which the document
brings them.
-/

namespace LoadBench.Toml

/-- How a table came to be, which decides what may still be added to it. -/
inductive Origin where
  /-- By a header of its own. -/
  | header
  /-- On the way to a longer header. -/
  | implied
  /-- On the way to a dotted key. -/
  | dotted
  /-- Between braces; such a table is complete. -/
  | inline
  deriving DecidableEq, Repr

inductive Value where
  | string (s : String)
  | integer (n : Int)
  | float (x : Double)
  | boolean (b : Bool)
  | datetime
  | array (items : List Value)
  | table (origin : Origin) (entries : List (String × Value))
  /-- The tables of repeated `[[name]]` headers. -/
  | tables (items : List (List (String × Value)))

/-- Keys and values of a table, in order. -/
abbrev Entries := List (String × Value)

/-- A reader of documents: the tree of a text, if the text is a document. -/
abbrev Reader := String → Option Entries

/-- Reads something off the front of a text, and gives what is left of it. -/
abbrev Scan (α : Type) := List Char → Option (α × List Char)

def dropFront (front : List Char) (cs : List Char) : Option (List Char) :=
  if front.isPrefixOf cs then some (cs.drop front.length) else none

def isGap (c : Char) : Bool := c = ' ' || c = '\t'

def skipGaps (cs : List Char) : List Char := cs.dropWhile isGap

/-- A character that may stand in a comment, or in a string by itself: everything but controls,
the tab excepted. -/
def isPlain (c : Char) : Bool := c = '\t' || (0x20 ≤ c.toNat && c.toNat ≠ 0x7F)

def newline? : List Char → Option (List Char)
  | '\n' :: cs => some cs
  | '\r' :: '\n' :: cs => some cs
  | _ => none

/-- The text after blanks, line breaks and comments. A comment with a control character is none. -/
def skipLines (inComment : Bool) : List Char → Option (List Char)
  | [] => some []
  | c :: cs =>
    if c = '\n' then skipLines false cs
    else if c = '\r' then
      if cs.head? = some '\n' then skipLines false cs
      else if inComment then none else some (c :: cs)
    else if inComment then
      if isPlain c then skipLines true cs else none
    else if isGap c then skipLines false cs
    else if c = '#' then skipLines true cs
    else some (c :: cs)

/-- The text after the rest of a line that holds nothing but blanks and a comment. -/
def endLine (cs : List Char) : Option (List Char) :=
  let cs := skipGaps cs
  let cs := if cs.head? = some '#' then cs.dropWhile isPlain else cs
  if cs = [] then some [] else newline? cs

end LoadBench.Toml
