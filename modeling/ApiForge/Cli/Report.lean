import ApiForge.Cli.Event
import ApiForge.Json.Printer
/-!
The report of a validation run. Each document has its errors, or else warnings
about what generation handles, but maybe not as expected. The report is shown as
lines of text or as one JSON value.
-/

namespace ApiForge.Cli

open ApiForge.Json (Value)

-- ============================================================== issues

/-- An error or a warning. -/
structure Issue where
  code : String
  message : String
  location : Option String := none
deriving DecidableEq, Repr

namespace Issue

/-- What stands before and after the first colon that a space follows. -/
def splitAtColon : List Char → Option (List Char × List Char)
  | [] => none
  | ':' :: ' ' :: rest => some ([], rest)
  | c :: rest => (splitAtColon rest).map fun (before, after) => (c :: before, after)

/-- The issue of a message that begins with its code and a colon; a message without
a code has the code of errors of any other kind. -/
def ofMessage (message : String) (location : Option String) : Issue :=
  match splitAtColon message.toList with
  | some ('E' :: code, rest) => ⟨String.ofList ('E' :: code), String.ofList rest, location⟩
  | some ('W' :: code, rest) => ⟨String.ofList ('W' :: code), String.ofList rest, location⟩
  | _ => ⟨"E1000", message, location⟩

/-- The issue of a failure. -/
def ofFailure : Failure → Issue
  | .prepare (.reference e) => ofMessage e.cause.message (some e.location)
  | .plan (.reference e) => ofMessage e.cause.message (some e.location)
  | f => ofMessage f.message none

/-- The line of an issue. -/
def line (i : Issue) : String :=
  "  " ++ i.code
    ++ (match i.location with
      | some l => " [" ++ l ++ "]"
      | none => "")
    ++ ": " ++ i.message

/-- An issue as a JSON value. -/
def json (i : Issue) : Value :=
  .obj ([("code", .str i.code)] ++ (i.location.map fun l => ("location", Value.str l)).toList
    ++ [("message", .str i.message)])

end Issue

-- ============================================================ warnings

namespace Warning

/-- An operation without an identifier. -/
def noIdentifier (location : String) : Issue :=
  ⟨"W1001", "no operationId; handler name derived from the path", some location⟩

/-- A request body that is not decoded. -/
def noJsonBody (location : String) : Issue :=
  ⟨"W1002", "request body has no JSON media type and is not decoded", some location⟩

/-- The body of an operation where a pointer to it has been followed; nothing if
there is none, or the pointer leads to none. -/
def body? (d : Document) (o : Operation) : StateM Resolver (Option RequestBody) := do
  match o.body with
  | none => return none
  | some (.inline b) => return some b
  | some (.pointer p) =>
    match ← Resolver.resolveAs d .requestBody p with
    | .ok ⟨_, .requestBody b⟩ => return some b
    | _ => return none

/-- The warnings about one operation. -/
def ofEndpoint (d : Document) (e : Document.Endpoint) : StateM Resolver (List Issue) := do
  let location := e.verb.name ++ " " ++ e.path
  let unnamed := if e.operation.id.isNone then [noIdentifier location] else []
  match ← body? d e.operation with
  | some b =>
    return unnamed ++
      (if !b.content.isEmpty && b.content.json?.isNone then [noJsonBody location] else [])
  | none => return unnamed

/-- The warnings about operations in order. -/
def ofEndpoints (d : Document) : List Document.Endpoint → StateM Resolver (List Issue)
  | [] => return []
  | e :: rest => return (← ofEndpoint d e) ++ (← ofEndpoints d rest)

/-- The warnings about a document. -/
def ofDocument (d : Document) : Told (List Issue) :=
  let (warnings, known) := (ofEndpoints d d.operations).run []
  ⟨Event.learnt [] known, warnings⟩

end Warning

-- ============================================================= verdicts

/-- What validation finds about one file. -/
structure Verdict where
  file : String
  errors : List Issue := []
  warnings : List Issue := []
  /-- The summary of a valid document. -/
  summary : Option Summary := none
deriving DecidableEq, Repr

/-- A summary as a JSON value. -/
def summaryJson (s : Summary) : Value :=
  .obj [("openapi", .str s.openapi), ("operations", .int s.operations), ("paths", .int s.paths),
    ("references", .int s.references), ("schemas", .int s.schemas),
    ("security_schemes", .int s.securitySchemes), ("title", .str s.title),
    ("version", .str s.version), ("webhooks", .int s.webhooks)]

namespace Verdict

/-- The verdict on a file that has been loaded, or has not. -/
def ofResult (file : String) : Except Failure Prepared → Told Verdict
  | .error e => ⟨[], { file, errors := [Issue.ofFailure e] }⟩
  | .ok p =>
    let ⟨events, warnings⟩ := Warning.ofDocument p.document
    ⟨events, { file, warnings, summary := some (Summary.ofDocument p.document p.references) }⟩

/-- Whether the file holds a valid document. -/
def isValid (v : Verdict) : Bool := v.summary.isSome

/-- The first line of a verdict. -/
def headLine (v : Verdict) : String :=
  if !v.isValid then "✗ " ++ v.file ++ " has " ++ toString v.errors.length ++ " error(s)"
  else if v.warnings.isEmpty then "✓ " ++ v.file ++ " is valid"
  else "✓ " ++ v.file ++ " is valid (with " ++ toString v.warnings.length ++ " warning(s))"

/-- The lines of a verdict. -/
def lines (v : Verdict) : List String :=
  v.headLine :: v.errors.map Issue.line ++ v.warnings.map fun w => w.line ++ " (warning)"

/-- A verdict as a JSON value. -/
def json (v : Verdict) : Value :=
  .obj ((v.summary.map fun s => ("document", summaryJson s)).toList
    ++ [("errors", .arr (v.errors.map Issue.json)), ("file", .str v.file),
      ("valid", .bool v.isValid), ("warnings", .arr (v.warnings.map Issue.json))])

end Verdict

-- ============================================================== report

/-- The verdicts on all files, in order. -/
structure Report where
  verdicts : List Verdict

namespace Report

/-- How many files hold a valid document. -/
def validCount (r : Report) : Nat := r.verdicts.countP Verdict.isValid

/-- How many do not. -/
def invalidCount (r : Report) : Nat := r.verdicts.length - r.validCount

/-- The report as lines of text. -/
def lines (r : Report) : List String :=
  r.verdicts.flatMap Verdict.lines ++ ["",
    "validated " ++ toString r.verdicts.length ++ " document(s): " ++ toString r.validCount
      ++ " valid, " ++ toString r.invalidCount ++ " invalid"]

/-- The report as a JSON value. -/
def json (r : Report) : Value :=
  .obj [("results", .arr (r.verdicts.map Verdict.json)),
    ("summary", .obj [("invalid", .int r.invalidCount), ("total", .int r.verdicts.length),
      ("valid", .int r.validCount)])]

end Report

end ApiForge.Cli
