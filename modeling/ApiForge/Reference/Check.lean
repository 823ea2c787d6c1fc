import ApiForge.Reference.Resolve
/-!
Validation of documents. `Document.validate` asks for the fields that every
document must have. `Document.checkReferences` resolves every reference against
the kind that its place asks for; the references are listed first, each with a
readable location, and then resolved in order up to the first that fails.
-/

namespace ApiForge

-- ==================================================== required fields

/-- Why a document is not valid. -/
inductive ValidationError where
  | missingField (field : String)
  | unsupportedVersion (version : String)
  /-- Neither paths nor components are declared. -/
  | empty
deriving DecidableEq, Repr

/-- The wording of a validation error. -/
def ValidationError.message : ValidationError → String
  | missingField field => "E1010: missing required field '" ++ field ++ "'"
  | unsupportedVersion version =>
    "E1011: unsupported OpenAPI version: " ++ version ++ " (only 3.x supported)"
  | empty => "E1012: document declares neither 'paths' nor 'components'"

/-- Whether a text holds nothing but blanks. -/
def isBlankText (s : String) : Bool :=
  s.toList.all Text.isBlank

/-- Checks the fields that every document must have. -/
def Document.validate (d : Document) : Except ValidationError Unit :=
  if isBlankText d.openapi then .error (.missingField "openapi")
  else if d.openapi.toList.takeWhile (· != '.') != ['3'] then
    .error (.unsupportedVersion d.openapi)
  else if isBlankText d.info.title then .error (.missingField "info.title")
  else if isBlankText d.info.version then .error (.missingField "info.version")
  else if d.paths.isNone && d.components.isNone then .error .empty
  else .ok ()

-- ========================================================= occurrences

/-- A reference in a document. -/
structure Occurrence where
  location : String
  /-- The kind of entry that its place asks for. -/
  kind : EntryKind
  pointer : String

namespace Schema

mutual

/-- The references in a schema, none beside a pointer. -/
def occurrences (location : String) (s : Schema) : List Occurrence :=
  match s with
  | { pointer, properties, items, additional, allOf, oneOf, anyOf, negated, .. } =>
    match pointer with
    | some p => [⟨location, .schema, p⟩]
    | none =>
      occurrencesInTable location properties
        ++ occurrencesInOption (location ++ "[]") items
        ++ occurrencesInAdditional (location ++ ".additionalProperties") additional
        ++ occurrencesInList (location ++ ".allOf") 0 allOf
        ++ occurrencesInList (location ++ ".oneOf") 0 oneOf
        ++ occurrencesInList (location ++ ".anyOf") 0 anyOf
        ++ occurrencesInOption (location ++ ".not") negated
termination_by structural s

/-- The references in the properties of a schema. -/
def occurrencesInTable (location : String) (t : List (String × Schema)) : List Occurrence :=
  match t with
  | [] => []
  | (name, s) :: rest =>
    s.occurrences (location ++ "." ++ name) ++ occurrencesInTable location rest
termination_by structural t

/-- The references in the members of a list, numbered from `i` on. -/
def occurrencesInList (location : String) (i : Nat) (l : List Schema) : List Occurrence :=
  match l with
  | [] => []
  | s :: rest =>
    s.occurrences (location ++ "[" ++ toString i ++ "]")
      ++ occurrencesInList location (i + 1) rest
termination_by structural l

/-- The references in a schema that may be absent. -/
def occurrencesInOption (location : String) (o : Option Schema) : List Occurrence :=
  match o with
  | none => []
  | some s => s.occurrences location
termination_by structural o

/-- The references in the schema of additional properties. -/
def occurrencesInAdditional (location : String) (o : Option (Additional Schema)) :
    List Occurrence :=
  match o with
  | none => []
  | some (.allowed _) => []
  | some (.shaped s) => s.occurrences location
termination_by structural o

end

end Schema

/-- The references of an entry that may itself be one. -/
def Referable.occurrences {α : Type} (kind : EntryKind) (inner : String → α → List Occurrence)
    (location : String) : Referable α → List Occurrence
  | .pointer target => [⟨location, kind, target⟩]
  | .inline a => inner location a

/-- The references in the bodies of a content table. -/
def Content.occurrences (location : String) (c : Content) : List Occurrence :=
  c.flatMap fun (_, m) => Schema.occurrencesInOption location m.schema

/-- The references of a parameter or pointer to one. -/
def Parameter.occurrences (location : String) (p : Referable Parameter) : List Occurrence :=
  p.occurrences .parameter (fun l p => Schema.occurrencesInOption l p.schema) location

/-- The references of a request body or pointer to one. -/
def RequestBody.occurrences (location : String) (b : Referable RequestBody) : List Occurrence :=
  b.occurrences .requestBody (fun l b => Content.occurrences l b.content) location

/-- The references of an answer or pointer to one. -/
def Response.occurrences (location : String) (r : Referable Response) : List Occurrence :=
  r.occurrences .response (fun l r => Content.occurrences l r.content) location

/-- The references of a list of parameters. -/
def Parameter.occurrencesInList (location : String) (ps : List (Referable Parameter)) :
    List Occurrence :=
  ps.zipIdx.flatMap fun (p, i) =>
    Parameter.occurrences (location ++ " parameter #" ++ toString i) p

/-- The references of an operation. -/
def Operation.occurrences (location : String) (o : Operation) : List Occurrence :=
  Parameter.occurrencesInList location o.parameters
    ++ (o.body.map (RequestBody.occurrences (location ++ " request body"))).getD []
    ++ o.responses.flatMap fun (status, r) =>
        Response.occurrences (location ++ " response " ++ status) r

/-- The references of a path. -/
def PathItem.occurrences (location : String) (p : PathItem) : List Occurrence :=
  Parameter.occurrencesInList location p.parameters
    ++ p.operations.flatMap fun (verb, o) => o.occurrences (verb.name ++ " " ++ location)

/-- The references of the shared entries. -/
def Components.occurrences (c : Components) : List Occurrence :=
  c.schemas.flatMap (fun (name, s) => s.occurrences ("components.schemas." ++ name))
    ++ c.responses.flatMap (fun (name, r) =>
        Response.occurrences ("components.responses." ++ name) r)
    ++ c.parameters.flatMap (fun (name, p) =>
        Parameter.occurrences ("components.parameters." ++ name) p)
    ++ c.requestBodies.flatMap (fun (name, b) =>
        RequestBody.occurrences ("components.requestBodies." ++ name) b)

/-- The references of a document in the order in which they are checked. -/
def Document.occurrences (d : Document) : List Occurrence :=
  d.shared.occurrences
    ++ d.pathTable.flatMap (fun (path, item) => item.occurrences path)
    ++ d.webhooks.flatMap (fun (name, item) => item.occurrences ("webhook " ++ name))

-- ============================================================ checking

/-- A reference that cannot be resolved, with its location. -/
structure ReferenceError where
  location : String
  cause : ResolveError
deriving DecidableEq, Repr

/-- The wording of a reference error. -/
def ReferenceError.message (e : ReferenceError) : String :=
  e.location ++ ": " ++ e.cause.message

/-- Resolves references in order up to the first that fails; answers how many
there are. -/
def Resolver.checkAll (d : Document) : List Occurrence → Nat → Resolver →
    Except ReferenceError Nat × Resolver
  | [], checked, known => (.ok checked, known)
  | o :: rest, checked, known =>
    match resolveAs d o.kind o.pointer known with
    | (.error e, known) => (.error ⟨o.location, e⟩, known)
    | (.ok _, known) => checkAll d rest (checked + 1) known

/-- Resolves every reference of a document, with a resolver that may have been
used before. -/
def Resolver.checkReferences (d : Document) (known : Resolver) :
    Except ReferenceError Nat × Resolver :=
  checkAll d d.occurrences 0 known

/-- Resolves every reference of a document. -/
def Document.checkReferences (d : Document) : Except ReferenceError Nat :=
  (Resolver.checkReferences d []).1

end ApiForge
