import ApiForge.Http.Uri
import ApiForge.Text.Blank
import ApiForge.Text.Percent
import ApiForge.Verb
/-!
Requests as they arrive: a method, a target, headers and a body. Methods and
header names are tokens; header names are kept in lower case, which makes their
comparison indifferent to case. A header value is a row of octets without control
characters, and can be read as a text only if all of them are visible ASCII.
-/

namespace ApiForge.Http

/-- Characters of a token. -/
def isTokenChar (c : Char) : Bool :=
  Uri.isAlnum c || "!#$%&'*+-.^_\x60|~".toList.contains c

/-- Whether a text is a token: not empty, and of token characters only. -/
def isToken (s : String) : Bool :=
  !s.isEmpty && s.toList.all isTokenChar

-- ============================================================= methods

/-- The method of a request: any token, the eight verbs among them. -/
structure Method where
  name : String
deriving DecidableEq, Repr, Inhabited

/-- The method that a verb is. -/
def Method.ofVerb (v : Verb) : Method := ⟨v.name⟩

/-- The method of a given name. -/
def Method.ofName? (s : String) : Option Method :=
  if isToken s then some ⟨s⟩ else none

-- ============================================================= headers

/-- A header. -/
structure Header where
  /-- The name in lower case. -/
  name : String
  value : List UInt8
deriving DecidableEq, Repr

namespace Header

/-- The name in the form in which names are compared. -/
def nameOf? (s : String) : Option String :=
  if isToken s then some (s.map Char.toLower) else none

/-- Whether an octet may stand in a value. -/
def isValueOctet (b : UInt8) : Bool :=
  (0x20 ≤ b && b != 0x7F) || b == 0x09

/-- Whether an octet of a value can be read as a character. -/
def isReadableOctet (b : UInt8) : Bool :=
  (0x20 ≤ b && b < 0x7F) || b == 0x09

/-- The text of a value. -/
def text? (h : Header) : Option String :=
  if h.value.all isReadableOctet then
    some (String.ofList (h.value.map fun b => Char.ofNat b.toNat))
  else none

end Header

-- ============================================================ requests

/-- A request. -/
structure Request where
  method : Method
  uri : Uri
  /-- Headers in the order in which they stand. -/
  headers : List Header := []
  body : List UInt8 := []
deriving Inhabited

/-- Why a request cannot be made of its parts. -/
inductive BadRequest where
  | headerName
  | headerValue
  | methodOrUri
deriving DecidableEq, Repr

/-- The part that is at fault. -/
def BadRequest.message : BadRequest → String
  | headerName => "header name"
  | headerValue => "header value"
  | methodOrUri => "method or uri"

namespace Request

/-- A header made of a name and a value. -/
def readHeader (name value : String) : Except BadRequest Header :=
  match Header.nameOf? name with
  | none => .error .headerName
  | some name =>
    let value := Text.Utf8.bytes value
    if value.all Header.isValueOctet then .ok { name, value } else .error .headerValue

/-- A request made of texts. Its headers are looked at first. -/
def ofTexts (method uri : String) (headers : List (String × String)) (body : String) :
    Except BadRequest Request := do
  let headers ← headers.mapM fun h => readHeader h.1 h.2
  match Method.ofName? method, Uri.parse? uri with
  | some method, some uri => return { method, uri, headers, body := Text.Utf8.bytes body }
  | _, _ => .error .methodOrUri

/-- The values of the headers of a name, in order. -/
def headersNamed (r : Request) (name : String) : List Header :=
  match Header.nameOf? name with
  | some name => r.headers.filter fun h => h.name == name
  | none => []

/-- The text of the first header of a name. -/
def headerText? (r : Request) (name : String) : Option String :=
  (r.headersNamed name).head?.bind Header.text?

-- =============================================================== query

/-- A pair of a query: what stands before the first equals sign and what after,
an absent value being empty. -/
def splitPair (pair : List Char) : List Char × List Char :=
  (pair.takeWhile (· != '='), (pair.dropWhile (· != '=')).drop 1)

/-- The pairs of a query with their escapes undone, in order. -/
def pairsOf (query : String) : List (String × String) :=
  (Text.splitBy (· == '&') query.toList).map fun pair =>
    let (key, value) := splitPair pair
    (Text.Percent.decode true (String.ofList key), Text.Percent.decode true (String.ofList value))

/-- The value of the first pair of the query whose key is `name`. -/
def queryValue? (r : Request) (name : String) : Option String :=
  r.uri.query.bind fun query => (pairsOf query).lookup name

end Request

end ApiForge.Http
