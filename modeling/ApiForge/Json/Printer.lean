import ApiForge.Json.Value
import ApiForge.Numeric.Shortest
/-!
JSON values as text: `compact` without any space, `lines` with each item and
member on a line of its own, indented by two spaces. Inside a string the quote,
the backslash and the control characters are escaped, all else stands as it is.
-/

namespace ApiForge.Json

/-- A character inside a string. -/
def escapeChar (c : Char) : List Char :=
  match c with
  | '"' => ['\\', '"']
  | '\\' => ['\\', '\\']
  | '\x08' => ['\\', 'b']
  | '\x0c' => ['\\', 'f']
  | '\n' => ['\\', 'n']
  | '\r' => ['\\', 'r']
  | '\t' => ['\\', 't']
  | c =>
    if c.toNat < 0x20 then
      ['\\', 'u', '0', '0', Nat.digitChar (c.toNat / 16), Nat.digitChar (c.toNat % 16)]
    else [c]

/-- A text in quotes. -/
def quote (s : String) : String :=
  String.ofList ('"' :: (s.toList.flatMap escapeChar ++ ['"']))

namespace Value

mutual

/-- The text of a value. -/
def compact : Value → String
  | null => "null"
  | bool b => if b then "true" else "false"
  | int n => toString n
  | float x => if x.isFinite then x.text else "null"
  | str s => quote s
  | arr items => "[" ++ ",".intercalate (compactItems items) ++ "]"
  | obj fields => "\x7b" ++ ",".intercalate (compactFields fields) ++ "\x7d"

/-- The texts of the items of an array. -/
def compactItems : List Value → List String
  | [] => []
  | v :: rest => v.compact :: compactItems rest

/-- The texts of the members of an object. -/
def compactFields : List (String × Value) → List String
  | [] => []
  | (k, v) :: rest => (quote k ++ ":" ++ v.compact) :: compactFields rest

end

/-- A line that goes on with a comma unless it is the last. -/
def withComma (last : Bool) (line : String) : String :=
  if last then line else line ++ ","

mutual

/-- The lines of a value. `head` begins the first of them, `more` says that a comma
ends the last, and `margin` stands before all but the first. -/
def linesFrom (margin head : String) (more : Bool) : Value → List String
  | arr (v :: items) =>
    (head ++ "[") :: itemLines (margin ++ "  ") (v :: items) ++ [withComma (!more) (margin ++ "]")]
  | obj (f :: fields) =>
    (head ++ "\x7b") :: fieldLines (margin ++ "  ") (f :: fields)
      ++ [withComma (!more) (margin ++ "\x7d")]
  | v => [withComma (!more) (head ++ v.compact)]

/-- The lines of the items of an array. -/
def itemLines (margin : String) : List Value → List String
  | [] => []
  | v :: rest => linesFrom margin margin (!rest.isEmpty) v ++ itemLines margin rest

/-- The lines of the members of an object. -/
def fieldLines (margin : String) : List (String × Value) → List String
  | [] => []
  | (k, v) :: rest =>
    linesFrom margin (margin ++ quote k ++ ": ") (!rest.isEmpty) v ++ fieldLines margin rest

end

/-- The lines of a value. -/
def lines (v : Value) : List String :=
  v.linesFrom "" "" false

end Value

end ApiForge.Json
