import LoadBench.Toml.Scalar
import LoadBench.Toml.Text

/-!
# TOML documents

A document is a list of statements, each on lines of its own: a header opens a table, and a pair
gives a key of the open table its value. No key is given twice, and a table is opened once.
-/

namespace LoadBench.Toml

def Entries.put (es : Entries) (key : String) (v : Value) : Entries :=
  es.map fun (k, old) => if k = key then (k, v) else (k, old)

def modifyLast? {α : Type} (f : α → Option α) : List α → Option (List α)
  | [] => none
  | [a] => (f a).map ([·])
  | a :: as => (modifyLast? f as).map (a :: ·)

/-- Gives a key, reached through the parts of a dotted key, its value. Tables on the way are made as
needed, but a table that has a header is closed to dotted keys, and one that a header implies takes
no key directly. -/
def insertPair : (path : List String) → String → Value → Entries → Option Entries
  | [], key, v, es => if (es.lookup key).isSome then none else some (es ++ [(key, v)])
  | p :: path, key, v, es =>
    match es.lookup p with
    | none => do return es ++ [(p, .table .dotted (← insertPair path key v []))]
    | some (.table .dotted inner) => do
      return es.put p (.table .dotted (← insertPair path key v inner))
    | some (.table .implied inner) =>
      if path = [] then none
      else do return es.put p (.table .implied (← insertPair path key v inner))
    | some (.tables items) =>
      if path = [] then none
      else do return es.put p (.tables (← modifyLast? (insertPair path key v) items))
    | some _ => none

def inlineTable (pairs : List (List String × Value)) : Option Value := do
  let es ← pairs.foldlM (fun es (path, v) => do
    insertPair path.dropLast (← path.getLast?) v es) []
  return .table .inline es

/-- How many brackets may be nested, and how many parts a dotted key may have. -/
def depthLimit : Nat := 79

/-- The items of an array, after its opening bracket; at most `fuel` of them. -/
def arrayItems (item : Scan Value) : (fuel : Nat) → Scan (List Value)
  | 0, _ => none
  | fuel + 1, cs => do
    match ← skipLines false cs with
    | ']' :: cs => return ([], cs)
    | cs =>
      let (v, cs) ← item cs
      match ← skipLines false cs with
      | ',' :: cs =>
        let (vs, cs) ← arrayItems item fuel cs
        return (v :: vs, cs)
      | ']' :: cs => return ([v], cs)
      | _ => none

def pair (value : Scan Value) : Scan (List String × Value) := fun cs => do
  let (path, cs) ← dottedKey depthLimit cs
  let (v, cs) ← value (skipGaps (← dropFront ['='] cs))
  return ((path, v), cs)

/-- The pairs of a table between braces, after a pair was begun; at most `fuel` of them. -/
def inlinePairs (value : Scan Value) : (fuel : Nat) → Scan (List (List String × Value))
  | 0, _ => none
  | fuel + 1, cs => do
    let (p, cs) ← pair value cs
    match skipGaps cs with
    | ',' :: cs =>
      let (ps, cs) ← inlinePairs value fuel cs
      return (p :: ps, cs)
    | '}' :: cs => return ([p], cs)
    | _ => none

/-- A value whose brackets are nested at most `depth` deep. -/
def value : (depth : Nat) → Scan Value
  | depth, cs =>
    match cs with
    | '\"' :: _ | '\'' :: _ => (string cs).map fun (s, cs) => (.string s, cs)
    | '[' :: cs =>
      match depth with
      | 0 => none
      | depth + 1 => (arrayItems (value depth) (cs.length + 1) cs).map fun (vs, cs) =>
          (.array vs, cs)
    | '{' :: cs =>
      match depth with
      | 0 => none
      | depth + 1 =>
        match skipGaps cs with
        | '}' :: cs => some (.table .inline [], cs)
        | cs => do
          let (ps, cs) ← inlinePairs (value depth) (cs.length + 1) cs
          return (← inlineTable ps, cs)
    | cs => scalar cs

inductive Statement where
  | header (path : List String)
  /-- A header that opens one more table of a list. -/
  | listHeader (path : List String)
  | pair (path : List String) (v : Value)

/-- One statement, to the end of its line. -/
def statement : Scan Statement := fun cs => do
  match cs with
  | '[' :: '[' :: cs =>
    let (path, cs) ← dottedKey depthLimit cs
    return (.listHeader path, ← endLine (← dropFront [']', ']'] cs))
  | '[' :: cs =>
    let (path, cs) ← dottedKey depthLimit cs
    return (.header path, ← endLine (← dropFront [']'] cs))
  | cs =>
    let ((path, v), cs) ← Toml.pair (value depthLimit) cs
    return (.pair path v, ← endLine cs)

def statements : (fuel : Nat) → List Char → Option (List Statement)
  | 0, _ => none
  | fuel + 1, cs => do
    match ← skipLines false cs with
    | [] => return []
    | cs =>
      let (s, cs) ← statement cs
      return s :: (← statements fuel cs)

/-- Changes the table that a header's path leads to. Tables on the way are implied as needed; of a
list of tables the last is meant. -/
def atPath {α : Type} (f : Entries → Option (α × Entries)) :
    (path : List String) → Entries → Option (α × Entries)
  | [], es => f es
  | p :: path, es =>
    match es.lookup p with
    | none => do
      let (a, inner) ← atPath f path []
      return (a, es ++ [(p, .table .implied inner)])
    | some (.table .inline _) => none
    | some (.table origin inner) => do
      let (a, inner) ← atPath f path inner
      return (a, es.put p (.table origin inner))
    | some (.tables items) => do
      let last ← items.getLast?
      let (a, last) ← atPath f path last
      return (a, es.put p (.tables (items.dropLast ++ [last])))
    | some _ => none

/-- A document under construction: the tables that are complete, and the one that is open. -/
structure Draft where
  root : Entries := []
  /-- Path of the open table; none for the top of the document. -/
  path : List String := []
  /-- The open table is one of a list. -/
  listed : Bool := false
  /-- Entries of the open table. -/
  current : Entries := []

namespace Draft

/-- The document with the open table put in its place. -/
def close (d : Draft) : Option Entries :=
  match d.path.getLast? with
  | none => some d.current
  | some key =>
    let place (es : Entries) : Option (Unit × Entries) :=
      match es.lookup key, d.listed with
      | some (.tables items), true => some ((), es.put key (.tables (items ++ [d.current])))
      | none, false => some ((), es ++ [(key, .table .header d.current)])
      | _, _ => none
    (atPath place d.path.dropLast d.root).map (·.2)

/-- The document after a header. A table that was only implied so far is opened with what it
holds. -/
def openTable (d : Draft) (path : List String) : Option Draft := do
  let root ← d.close
  let key ← path.getLast?
  let reopen (es : Entries) : Option (Entries × Entries) :=
    match es.lookup key with
    | none => some ([], es)
    | some (.table .implied inner) => some (inner, es.filter (·.1 ≠ key))
    | some _ => none
  let (current, root) ← atPath reopen path.dropLast root
  return { root, path, current }

/-- The document after a header that opens one more table of a list. -/
def openListed (d : Draft) (path : List String) : Option Draft := do
  let root ← d.close
  let key ← path.getLast?
  let enlist (es : Entries) : Option (Unit × Entries) :=
    match es.lookup key with
    | none => some ((), es ++ [(key, .tables [])])
    | some (.tables _) => some ((), es)
    | some _ => none
  let ((), root) ← atPath enlist path.dropLast root
  return { root, path, listed := true }

def add (d : Draft) : Statement → Option Draft
  | .header path => d.openTable path
  | .listHeader path => d.openListed path
  | .pair path v => do
    return { d with current := ← insertPair path.dropLast (← path.getLast?) v d.current }

end Draft

/-- The tree of a document's text. A byte order mark in front does not count. -/
def ofChars (cs : List Char) : Option Entries := do
  let cs := match cs with
    | '\uFEFF' :: cs => cs
    | cs => cs
  (← (← statements (cs.length + 1) cs).foldlM Draft.add {}).close

def read? (text : String) : Option Entries := ofChars text.toList

end LoadBench.Toml
