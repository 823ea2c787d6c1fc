import ApiForge.Document.Schema
import ApiForge.Verb
/-!
Documents that describe an interface: its paths, their operations, and the
components that they share. Every table stands in key order. What a document
leaves out has the default of its field here; fields whose absence means
something else than an empty value are optional.
-/

namespace ApiForge

-- ===================================================== shared entries

/-- An entry that is either written out or a pointer to a component. -/
inductive Referable (α : Type) where
  | pointer (target : String)
  | inline (value : α)
deriving Inhabited

/-- Scheme names with the scopes that each must grant. A clause is met when all
its schemes are. -/
abbrev Clause : Type := Table (List String)

/-- Where a parameter is written in a request. -/
inductive ParameterPlace where
  | path
  | query
  | header
  | cookie
  | queryString
deriving DecidableEq, Repr, Inhabited

/-- The spelling of a place in documents. -/
def ParameterPlace.name : ParameterPlace → String
  | path => "path"
  | query => "query"
  | header => "header"
  | cookie => "cookie"
  | queryString => "querystring"

/-- A parameter of an operation. -/
structure Parameter where
  name : String
  place : ParameterPlace
  required : Bool := false
  description : Option String := none
  deprecated : Bool := false
  schema : Option Schema := none
deriving Inhabited

/-- How a body looks in one media type. -/
structure MediaType where
  schema : Option Schema := none
deriving Inhabited

/-- Bodies by media type. -/
abbrev Content : Type := Table MediaType

/-- The JSON form of a body: the exact media type, else the first with
parameters, else the first whose suffix says JSON. -/
def Content.json? (content : Content) : Option MediaType :=
  (Table.get? "application/json" content)
    <|> ((content.find? fun e => e.1.startsWith "application/json").map (·.2))
    <|> ((content.find? fun e => e.1.endsWith "+json").map (·.2))

/-- The body of a request. -/
structure RequestBody where
  description : Option String := none
  content : Content := []
  required : Bool := false
deriving Inhabited

/-- An answer to a request. -/
structure Response where
  description : String := ""
  content : Content := []
deriving Inhabited

-- ========================================================== operations

/-- An operation: one verb on one path. -/
structure Operation where
  id : Option String := none
  summary : Option String := none
  description : Option String := none
  tags : List String := []
  parameters : List (Referable Parameter) := []
  body : Option (Referable RequestBody) := none
  /-- Answers by status code, class of codes, or `default`. -/
  responses : Table (Referable Response) := []
  /-- The security clauses of this operation; when absent those of the document
  apply, and an empty list asks for no credentials. -/
  security : Option (List Clause) := none
  deprecated : Bool := false
deriving Inhabited

/-- A path with at most one operation for each verb. -/
structure PathItem where
  summary : Option String := none
  description : Option String := none
  operation : Verb → Option Operation := fun _ => none
  /-- Parameters that every operation of the path inherits. -/
  parameters : List (Referable Parameter) := []

instance : Inhabited PathItem := ⟨{}⟩

namespace PathItem

/-- The path with an operation for a verb. -/
def withOperation (item : PathItem) (verb : Verb) (op : Option Operation) : PathItem :=
  { item with operation := fun v => if v = verb then op else item.operation v }

/-- The operations of a path in the order of the verbs. -/
def operations (item : PathItem) : List (Verb × Operation) :=
  Verb.all.filterMap fun v => (item.operation v).map (v, ·)

end PathItem

-- ============================================================ security

/-- Where an API key is carried. -/
inductive KeyPlace where
  | header
  | query
  | cookie
deriving DecidableEq, Repr, Inhabited

/-- The spelling of a place in documents. -/
def KeyPlace.name : KeyPlace → String
  | header => "header"
  | query => "query"
  | cookie => "cookie"

/-- How the credentials of one kind are presented. -/
inductive SecurityScheme where
  | apiKey (name : String) (place : KeyPlace) (description : Option String)
  | http (scheme : String) (bearerFormat : Option String) (description : Option String)
  | oauth2 (flows : Json.Value) (description : Option String)
  | openIdConnect (url : String) (description : Option String)
  | mutualTls (description : Option String)
deriving Inhabited

/-- The description of a scheme. -/
def SecurityScheme.description : SecurityScheme → Option String
  | apiKey _ _ d => d
  | http _ _ d => d
  | oauth2 _ d => d
  | openIdConnect _ d => d
  | mutualTls d => d

-- =========================================================== documents

/-- Entries that other parts of the document point to. -/
structure Components where
  schemas : Table Schema := []
  responses : Table (Referable Response) := []
  parameters : Table (Referable Parameter) := []
  requestBodies : Table (Referable RequestBody) := []
  securitySchemes : Table SecurityScheme := []
deriving Inhabited

/-- What the document says about itself. -/
structure Info where
  title : String := ""
  version : String := ""
  description : Option String := none
deriving Inhabited

/-- A document. -/
structure Document where
  openapi : String := ""
  info : Info := {}
  paths : Option (Table PathItem) := none
  webhooks : Table PathItem := []
  components : Option Components := none
  security : Option (List Clause) := none
deriving Inhabited

namespace Document

/-- The paths of a document, none when the table is absent. -/
def pathTable (d : Document) : Table PathItem :=
  d.paths.getD []

/-- The components of a document, none when the section is absent. -/
def shared (d : Document) : Components :=
  d.components.getD {}

/-- The named schemas. -/
def schemas (d : Document) : Table Schema :=
  d.shared.schemas

/-- The declared security schemes. -/
def securitySchemes (d : Document) : Table SecurityScheme :=
  d.shared.securitySchemes

/-- An operation with where it stands. -/
structure Endpoint where
  path : String
  verb : Verb
  item : PathItem
  operation : Operation

/-- Every operation in path order, those of one path in verb order. -/
def operations (d : Document) : List Endpoint :=
  d.pathTable.flatMap fun (path, item) =>
    item.operations.map fun (verb, op) => ⟨path, verb, item, op⟩

end Document

end ApiForge
