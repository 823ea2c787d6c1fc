import ApiForge.Json.Value
import ApiForge.Text.Quoted
/-!
Log records: a level, the part of the program that speaks, and fields. A record
is shown either as a line of text or as a JSON object.
-/

namespace ApiForge.Log

-- =============================================================== levels

/-- How much a record matters, the gravest first. -/
inductive Level where
  | error
  | warn
  | info
  | debug
  | trace
deriving DecidableEq, Repr, Inhabited

namespace Level

/-- The place of a level, from one for the gravest. -/
def rank : Level → Nat
  | error => 1
  | warn => 2
  | info => 3
  | debug => 4
  | trace => 5

/-- Every level, the gravest first. -/
def all : List Level := [error, warn, info, debug, trace]

/-- The name of a level in records. -/
def name : Level → String
  | error => "ERROR"
  | warn => "WARN"
  | info => "INFO"
  | debug => "DEBUG"
  | trace => "TRACE"

end Level

-- ============================================================== records

/-- The value of a field. -/
inductive FieldValue where
  /-- A text that stands in quotes on a line. -/
  | quoted (s : String)
  | plain (s : String)
  | number (n : Nat)
deriving DecidableEq, Repr

namespace FieldValue

/-- The value on a line. -/
def text : FieldValue → String
  | quoted s => Text.Quoted.encode s
  | plain s => s
  | number n => toString n

/-- The value in an object. -/
def json : FieldValue → Json.Value
  | quoted s => .str s
  | plain s => .str s
  | number n => .int n

end FieldValue

/-- A log record. -/
structure Record where
  level : Level
  /-- The part of the program that speaks. -/
  target : String
  message : Option String := none
  fields : List (String × FieldValue) := []
deriving DecidableEq, Repr

namespace Record

/-- The record as a line: its level in five columns, its message, its fields. -/
def text (r : Record) : String :=
  let column := String.ofList (List.replicate (5 - r.level.name.length) ' ') ++ r.level.name
  " ".intercalate (column :: r.message.toList ++ r.fields.map fun f => f.1 ++ "=" ++ f.2.text)

/-- The members of the record as an object, its fields side by side with the rest. -/
def members (r : Record) : List (String × Json.Value) :=
  [("level", .str r.level.name)] ++ (r.message.map fun m => ("message", Json.Value.str m)).toList
    ++ r.fields.map (fun f => (f.1, f.2.json)) ++ [("target", .str r.target)]

/-- The names of the fields, the message among them. -/
def fieldNames (r : Record) : List String :=
  (r.message.map fun _ => "message").toList ++ r.fields.map (·.1)

end Record

-- =============================================================== formats

/-- How records are shown. -/
inductive Format where
  | pretty
  | json
deriving DecidableEq, Repr, Inhabited

/-- The format of a name in any case of letters. -/
def Format.ofName? (s : String) : Option Format :=
  let name := s.map Char.toLower
  if name = "json" then some .json
  else if name = "pretty" then some .pretty
  else none

end ApiForge.Log
