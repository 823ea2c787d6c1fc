import ApiForge.Document.Item
import ApiForge.Http.Response
import ApiForge.Json.Printer
import ApiForge.Json.Text
/-!
Problem details: the JSON body of an answer that reports a fault. The kind of
fault is named by a URN; detail and instance are left out when there is nothing
to say.
-/

namespace ApiForge.Http

open ApiForge.Json (quote)

/-- What an answer says about a fault. -/
structure Problem where
  kind : String
  title : String
  status : Nat
  detail : Option String := none
  /-- What the fault is about, as a rule the path of the request. -/
  subject : Option String := none
deriving DecidableEq, Repr, Inhabited

namespace Problem

/-- The URN of a kind of fault. -/
def urn (kind : String) : String := "urn:oasgen:error:" ++ kind

/-- A problem without detail and subject. -/
def ofStatus (status : Nat) (kind title : String) : Problem :=
  { kind := urn kind, title, status }

/-- The request is at fault. -/
def badRequest (detail : String) : Problem :=
  { ofStatus 400 "bad-request" "Bad Request" with detail := some detail }

/-- No credentials of the request are enough. -/
def unauthorized : Problem :=
  ofStatus 401 "authentication-failed" "Authentication failed"

/-- There is nothing at this path. -/
def notFound (path : String) : Problem :=
  { ofStatus 404 "not-found" "Not Found" with subject := some path }

/-- The service is at fault. What went wrong is not told. -/
def internal : Problem :=
  ofStatus 500 "internal" "Internal Server Error"

-- =============================================================== text

/-- The members of the JSON form in the order in which they stand. -/
def members (p : Problem) : List (String × Json.Value) :=
  [("type", .str p.kind), ("title", .str p.title), ("status", .int p.status)]
    ++ (p.detail.map fun d => ("detail", Json.Value.str d)).toList
    ++ (p.subject.map fun s => ("instance", Json.Value.str s)).toList

/-- The JSON form. -/
def text (p : Problem) : String :=
  (Json.Value.obj p.members).compact

/-- The answer that carries the problem. -/
def response (p : Problem) : Response :=
  { status := Response.statusOf p.status, contentType := some "application/problem+json",
    body := p.text }

-- ============================================================= reading

/-- A number that fits sixteen bits. -/
def readStatus (item : Item) : Read Nat := do
  match item with
  | .tree _ (.int n) => if 0 ≤ n ∧ n < 0x10000 then return n.toNat else item.unexpected "u16"
  | item => item.unexpected "u16"

/-- Reads a problem. -/
def read (item : Item) : Read Problem :=
  item.record ⟨"struct Problem", ["type", "title", "status", "detail", "instance"],
      ["type", "title", "status"]⟩
    { kind := "", title := "", status := 0 } fun p field item => do
      match field with
      | "type" => return { p with kind := ← item.text }
      | "title" => return { p with title := ← item.text }
      | "status" => return { p with status := ← readStatus item }
      | "detail" => return { p with detail := ← item.optional Item.text }
      | "instance" => return { p with subject := ← item.optional Item.text }
      | _ => return p

/-- The problem that a JSON text is. -/
def parse? (s : String) : Option Problem :=
  match (Json.Text.read? (Text.Utf8.bytes s)).map fun t => (read (.tree false t)).run 0 with
  | some (.ok (p, _)) => some p
  | _ => none

end Problem

end ApiForge.Http
