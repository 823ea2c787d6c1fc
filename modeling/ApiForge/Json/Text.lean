import ApiForge.Json.Number
import ApiForge.Text.Utf8
/-!
JSON text. The reader takes one octet at a time: its state is what it is in the
middle of, and the lists and objects around it. What a leaf holds is not judged
while it is read: a string with an impossible escape or ill-formed octets, a
number too large, or a container too deep becomes an unreadable leaf, which only
matters to a reader that looks at it. Consumed by the document reader, request
bodies and problems.
-/

namespace ApiForge.Json.Text

open ApiForge.Text (Utf8.decode? Utf8.encode Utf8.bytes)

-- =========================================================== state

/-- A list or object that has been opened, with what it holds so far, last
first. -/
inductive Frame where
  | list (items : List Tree)
  | object (bindings : List (Tree × Tree))
  /-- An object whose latest key waits for its value. -/
  | member (bindings : List (Tree × Tree)) (key : Tree)

/-- A string in the making: its octets, last first, unless it is spoilt. -/
structure Piece where
  octets : List UInt8 := []
  spoilt : Bool := false
  /-- A high surrogate that waits for its low one. -/
  pending : Option Nat := none

/-- What the reader is in the middle of. -/
inductive Mode where
  /-- A value must begin. -/
  | value
  /-- The first item of a list must begin, or the list end. -/
  | firstItem
  /-- The first key of an object must begin, or the object end. -/
  | firstKey
  /-- A key must begin. -/
  | key
  /-- The colon after a key must follow. -/
  | colon
  /-- A value has ended. -/
  | after
  | string (isKey : Bool) (piece : Piece)
  /-- A backslash has been read. -/
  | escape (isKey : Bool) (piece : Piece)
  /-- `left` digits of a code unit are still to come. -/
  | unit (isKey : Bool) (piece : Piece) (value left : Nat)
  | number (octets : List UInt8)
  /-- `left` is what is missing of a word. -/
  | word (left : List UInt8) (result : Tree)

/-- The state of the reader. -/
structure State where
  stack : List Frame := []
  mode : Mode := .value
  /-- The value of the whole text, once it has ended. -/
  result : Option Tree := none

/-- Containers may nest this deep before they become unreadable. -/
def maxDepth : Nat := 127

-- =================================================== strings and values

/-- The string or unreadable leaf that a finished piece denotes. -/
def Piece.toTree (p : Piece) : Tree :=
  if p.spoilt || p.pending.isSome then .unreadable
  else
    match Utf8.decode? p.octets.reverse with
    | some cs => .str (String.ofList cs)
    | none => .unreadable

/-- Adds octets to a piece; a surrogate that waits is left unpaired by them. -/
def Piece.add (p : Piece) (octets : List UInt8) : Piece :=
  { p with octets := octets.reverse ++ p.octets, spoilt := p.spoilt || p.pending.isSome,
           pending := none }

/-- Adds a code unit written as an escape. -/
def Piece.addUnit (p : Piece) (unit : Nat) : Piece :=
  match p.pending with
  | some high =>
    if 0xDC00 ≤ unit && unit ≤ 0xDFFF then
      let c := Char.ofNat (0x10000 + (high - 0xD800) * 0x400 + (unit - 0xDC00))
      { p with octets := (Utf8.encode [c]).reverse ++ p.octets, pending := none }
    else { p with spoilt := true, pending := none }
  | none =>
    if 0xD800 ≤ unit && unit ≤ 0xDBFF then { p with pending := some unit }
    else if 0xDC00 ≤ unit && unit ≤ 0xDFFF then { p with spoilt := true }
    else p.add (Utf8.encode [Char.ofNat unit])

/-- Puts an ended value where it belongs. -/
def State.close (s : State) (t : Tree) : State :=
  match s.stack with
  | [] => { s with mode := .after, result := some t }
  | .list items :: rest => { s with stack := .list (t :: items) :: rest, mode := .after }
  | .member bindings k :: rest =>
    { s with stack := .object ((k, t) :: bindings) :: rest, mode := .after }
  | .object bindings :: rest => { s with stack := .object bindings :: rest, mode := .after }

/-- Ends a string, as a key or as a value. -/
def State.closeString (s : State) (isKey : Bool) (p : Piece) : State :=
  if isKey then
    match s.stack with
    | .object bindings :: rest =>
      { s with stack := .member bindings p.toTree :: rest, mode := .colon }
    | _ => s.close p.toTree
  else s.close p.toTree

/-- Ends the innermost container, if `t` is what it holds. -/
def State.pop (s : State) (t : Tree) : State :=
  let tooDeep := maxDepth < s.stack.length
  { s with stack := s.stack.tail }.close (if tooDeep then .unreadable else t)

-- ============================================================ steps

/-- Whether an octet is white space between tokens. -/
def isSpace (b : UInt8) : Bool :=
  b == 0x20 || b == 0x0A || b == 0x09 || b == 0x0D

/-- Whether an octet may occur in a number. -/
def isNumberOctet (b : UInt8) : Bool :=
  (0x30 ≤ b && b ≤ 0x39) || b == 0x2B || b == 0x2D || b == 0x2E || b == 0x45 || b == 0x65

/-- The value of a hexadecimal digit. -/
def hexValue? (b : UInt8) : Option Nat :=
  if 0x30 ≤ b && b ≤ 0x39 then some (b.toNat - 0x30)
  else if 0x41 ≤ b && b ≤ 0x46 then some (b.toNat - 0x41 + 10)
  else if 0x61 ≤ b && b ≤ 0x66 then some (b.toNat - 0x61 + 10)
  else none

/-- The octet that a short escape stands for. -/
def shortEscape? (b : UInt8) : Option UInt8 :=
  match Char.ofNat b.toNat with
  | '"' => some 0x22
  | '\\' => some 0x5C
  | '/' => some 0x2F
  | 'b' => some 0x08
  | 'f' => some 0x0C
  | 'n' => some 0x0A
  | 'r' => some 0x0D
  | 't' => some 0x09
  | _ => none

/-- Begins a value. -/
def beginValue (s : State) (b : UInt8) : Option State :=
  match Char.ofNat b.toNat with
  | '[' => some { s with stack := .list [] :: s.stack, mode := .firstItem }
  | '\x7b' => some { s with stack := .object [] :: s.stack, mode := .firstKey }
  | '"' => some { s with mode := .string false {} }
  | 't' => some { s with mode := .word (Utf8.bytes "rue") (.bool true) }
  | 'f' => some { s with mode := .word (Utf8.bytes "alse") (.bool false) }
  | 'n' => some { s with mode := .word (Utf8.bytes "ull") .null }
  | c => if c == '-' || c.isDigit then some { s with mode := .number [b] } else none

/-- Takes what follows a value. -/
def afterValue (s : State) (b : UInt8) : Option State :=
  match s.stack, Char.ofNat b.toNat with
  | .list _ :: _, ',' => some { s with mode := .value }
  | .list items :: _, ']' => some (s.pop (.seq items.reverse))
  | .object _ :: _, ',' => some { s with mode := .key }
  | .object bindings :: _, '\x7d' => some (s.pop (.map bindings.reverse))
  | _, _ => none

/-- Ends a number. -/
def endNumber (s : State) (octets : List UInt8) : Option State :=
  (Number.read? (octets.reverse.map fun b => Char.ofNat b.toNat)).map s.close

/-- One step of the reader. -/
def step (s : State) (b : UInt8) : Option State :=
  match s.mode with
  | .string isKey p =>
    if b == 0x22 then some (s.closeString isKey p)
    else if b == 0x5C then some { s with mode := .escape isKey p }
    else if b < 0x20 then none
    else some { s with mode := .string isKey (p.add [b]) }
  | .escape isKey p =>
    if b == 0x75 then some { s with mode := .unit isKey p 0 4 }
    else (shortEscape? b).map fun o => { s with mode := .string isKey (p.add [o]) }
  | .unit isKey p value left =>
    (hexValue? b).map fun d =>
      let unit := value * 16 + d
      if left ≤ 1 then { s with mode := .string isKey (p.addUnit unit) }
      else { s with mode := .unit isKey p unit (left - 1) }
  | .number octets =>
    if isNumberOctet b then some { s with mode := .number (b :: octets) }
    else do
      let s ← endNumber s octets
      if isSpace b then some s else afterValue s b
  | .word left result =>
    match left with
    | [] => none
    | [c] => if b == c then some (s.close result) else none
    | c :: rest => if b == c then some { s with mode := .word rest result } else none
  | .value => if isSpace b then some s else beginValue s b
  | .firstItem =>
    if isSpace b then some s
    else if b == 0x5D then some (s.pop (.seq []))
    else beginValue s b
  | .firstKey =>
    if isSpace b then some s
    else if b == 0x7D then some (s.pop (.map []))
    else if b == 0x22 then some { s with mode := .string true {} }
    else none
  | .key =>
    if isSpace b then some s
    else if b == 0x22 then some { s with mode := .string true {} }
    else none
  | .colon =>
    if isSpace b then some s
    else if b == 0x3A then some { s with mode := .value }
    else none
  | .after => if isSpace b then some s else afterValue s b

/-- What the text denotes if it ends here. -/
def finish (s : State) : Option Tree :=
  match s.mode with
  | .number octets => (endNumber s octets).bind (·.result)
  | .after => s.result
  | _ => none

/-- The tree of a JSON text, nothing for an ill-formed one. -/
def read? (octets : List UInt8) : Option Tree :=
  (octets.foldlM step {}).bind finish

end ApiForge.Json.Text

namespace ApiForge.Json

/-- The value of a JSON text all of which can be read. -/
def readValue? (octets : List UInt8) : Option Value :=
  (Text.read? octets).bind Tree.value?

end ApiForge.Json
