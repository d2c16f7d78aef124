/-!
# Plain text

A log that no terminal shows is written without terminal controls. Controls other than the tab and
those that end a line or a page are left out, and so are whole control sequences: what follows an
escape character, up to where the sequence ends.
-/

namespace LoadBench

/-- Where in a control sequence a text stands. -/
inductive Place where
  /-- In no sequence. -/
  | text
  /-- After the escape character. -/
  | escape
  /-- In the name of a short sequence, which ends with the next letter or digit. -/
  | short
  /-- In the parameters of a sequence `ESC [`, which ends with the next letter. -/
  | parameters
  /-- At the start of a device control `ESC P`. -/
  | deviceStart
  /-- In the parameters of a device control. -/
  | deviceParameters
  /-- In the name of a device control. -/
  | deviceName
  /-- In a string that only a string terminator ends. -/
  | string
  /-- In a system command `ESC ]`, which a bell ends. -/
  | command
  deriving DecidableEq, Repr

/-- The code of the string terminator. It ends a string also as a part of another character. -/
def stringTerminator : UInt8 := 0x9C

/-- Controls that stay in a plain text. -/
def isLayout (c : Char) : Bool := c = '\t' || c = '\n' || c = '\x0c' || c = '\r'

namespace Place

/-- The place after a character. An escape character begins a sequence and a cancel or substitute
character ends one, wherever they stand. -/
def next (p : Place) (c : Char) : Place :=
  let n := c.toNat
  let isGraphic := 0x20 ≤ n && n < 0x7F
  if n = 0x1B then .escape
  else if n = 0x18 ∨ n = 0x1A then .text
  else match p with
  | .text => .text
  | .escape =>
    if !isGraphic then .escape
    else if n < 0x30 then .short
    else if c = '[' then .parameters
    else if c = ']' then .command
    else if c = 'P' then .deviceStart
    else if c = 'X' || c = '^' || c = '_' then .string
    else .text
  | .short => if isGraphic && 0x30 ≤ n then .text else .short
  | .parameters => if isGraphic && 0x40 ≤ n then .text else .parameters
  | .deviceStart =>
    if !isGraphic then .deviceStart
    else if n < 0x30 then .deviceName
    else if n < 0x40 then .deviceParameters
    else .string
  | .deviceParameters =>
    if !isGraphic then .deviceParameters
    else if n < 0x30 then .deviceName
    else if n < 0x3C then .deviceParameters
    else .string
  | .deviceName => if isGraphic && 0x30 ≤ n then .string else .deviceName
  | .string => if stringTerminator ∈ String.utf8EncodeChar c then .text else .string
  | .command => if n = 0x07 then .text else .command

/-- Whether a character stays in the text. Layout stays also within the sequences that are made of
graphic characters. -/
def shows (p : Place) (c : Char) : Bool :=
  match p with
  | .text => isLayout c || (0x20 ≤ c.toNat && c.toNat ≠ 0x7F)
  | .escape | .short | .parameters => isLayout c
  | _ => false

end Place

/-- The plain text of a text that begins at a place. After layout within a sequence the text is
`shown` as it is, until a control or the end; a control goes on with the sequence unless a character
beyond ASCII came before. -/
def plainFrom (p : Place) (shown : Bool) : List Char → List Char
  | [] => []
  | c :: cs =>
    if shown && Place.text.shows c then
      c :: plainFrom (if c.toNat < 0x80 then p else .text) true cs
    else if p.shows c then
      c :: plainFrom (p.next c) true cs
    else
      plainFrom (p.next c) false cs

def plain (cs : List Char) : List Char := plainFrom .text false cs

end LoadBench
