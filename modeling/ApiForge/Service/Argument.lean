import ApiForge.Http.Problem
import ApiForge.Numeric.FloatText
import ApiForge.Numeric.IntegerText
import ApiForge.Service.Call
/-!
The arguments of a call: what its path, its query and its body say. A required
argument that is missing or cannot be read is the caller's fault and answered
with a problem; an optional one counts as absent then.
-/

namespace ApiForge.Service

open ApiForge.Http (Problem Request)
open ApiForge.Numeric (Binary64 Binary32)

/-- Where an argument stands. -/
inductive ArgumentPlace where
  | path
  | query
deriving DecidableEq, Repr

/-- The word for a place. -/
def ArgumentPlace.name : ArgumentPlace → String
  | path => "path"
  | query => "query"

/-- Why an argument cannot be had. -/
inductive ArgumentError where
  | missing (name : String) (place : ArgumentPlace)
  | invalid (name : String) (place : ArgumentPlace) (reason : String)
  | missingBody
  | invalidBody (reason : String)
deriving DecidableEq, Repr

namespace ArgumentError

/-- The wording of an argument error. -/
def message : ArgumentError → String
  | missing name place => "missing required parameter '" ++ name ++ "' in " ++ place.name
  | invalid name place reason =>
    "invalid parameter '" ++ name ++ "' in " ++ place.name ++ ": " ++ reason
  | missingBody => "missing required request body"
  | invalidBody reason => "invalid request body: " ++ reason

/-- The answer to a call with this fault. -/
def response (e : ArgumentError) : Http.Response :=
  (Problem.badRequest e.message).response

end ArgumentError

-- ==================================================== reading one text

/-- Reads a text as a value, or says why it is none. -/
abbrev Reader (α : Type) : Type := String → Except String α

namespace Reader

/-- Any text is a value of its own. -/
def text : Reader String := .ok

/-- Signed words of a given width. -/
def signed (width : Nat) : Reader Int := fun s =>
  (Numeric.readSigned width s).mapError Numeric.IntegerError.message

/-- Doubles. -/
def double : Reader Binary64 := fun s =>
  ((Numeric.readFloat .double s).mapError Numeric.FloatError.message).map fun (negative, p) =>
    Binary64.ofPattern negative p

/-- Numbers of single precision. -/
def single : Reader Binary32 := fun s =>
  ((Numeric.readFloat .single s).mapError Numeric.FloatError.message).map fun (negative, p) =>
    Binary32.ofPattern negative p

/-- Truth values. -/
def flag : Reader Bool := fun s =>
  if s = "true" then .ok true
  else if s = "false" then .ok false
  else .error "provided string was not \x60true\x60 or \x60false\x60"

end Reader

-- ========================================================== arguments

namespace Call

variable {α : Type}

/-- Reads the text of an argument. -/
def readArgument (read : Reader α) (name : String) (place : ArgumentPlace)
    (written : Option String) : Except ArgumentError α :=
  match written with
  | none => .error (.missing name place)
  | some s => (read s).mapError (.invalid name place)

/-- A required argument of the path. -/
def pathArgument (c : Call) (read : Reader α) (name : String) : Except ArgumentError α :=
  readArgument read name .path (c.capture? name)

/-- A required argument of the query. -/
def queryArgument (c : Call) (read : Reader α) (name : String) : Except ArgumentError α :=
  readArgument read name .query (c.request.queryValue? name)

/-- An argument of the query that may be left out. -/
def queryArgument? (c : Call) (read : Reader α) (name : String) : Option α :=
  (c.request.queryValue? name).bind fun s => (read s).toOption

/-- Whether an octet is a space of ASCII. -/
def isSpaceOctet (b : UInt8) : Bool :=
  b == 0x20 || b == 0x09 || b == 0x0A || b == 0x0C || b == 0x0D

/-- The body as JSON, nothing if it is blank. -/
def jsonBody? (c : Call) (read : Item → Read α) : Except ArgumentError (Option α) :=
  if c.request.body.all isSpaceOctet then .ok none
  else
    match Json.Text.read? c.request.body with
    | none => .error (.invalidBody "not a JSON text")
    | some t =>
      match (read (.tree false t)).run 0 with
      | .ok (a, _) => .ok (some a)
      | .error e => .error (.invalidBody e.message)

/-- The body as JSON. -/
def jsonBody (c : Call) (read : Item → Read α) : Except ArgumentError α := do
  match ← c.jsonBody? read with
  | some a => return a
  | none => .error .missingBody

end Call

end ApiForge.Service
