import ApiForge.Document.Basic
import ApiForge.Document.Item
import ApiForge.Json.Text
/-!
Documents from text. Each part of a document is a record: its layout names the
fields, and a function takes one field after the other into the part. Entries
that may be references, security schemes and additional properties are settled
first, because what they are shows only in what they hold. Schemas nest, so their
reader counts down a bound on the height of the item.
-/

namespace ApiForge

-- ============================================================ schemas

namespace Schema

/-- The fields of a schema. -/
def layout : Layout where
  title := "struct Schema"
  fields := ["$ref", "type", "format", "title", "description", "properties", "items",
    "additionalProperties", "required", "enum", "allOf", "oneOf", "anyOf", "not",
    "nullable", "deprecated"]

/-- Reads one name of a list of type names. -/
def readTypeName (item : Item) : Read String := do
  match ← item.settle with
  | .str s => return s
  | t => (Item.tree true t).unexpected "a type name"

/-- Reads type names, given as one name, as a list, or as null for none. -/
def readTypes (item : Item) : Read (List String) := do
  let expected := "a type name or a list of type names"
  match item with
  | .place p =>
    let p ← p.follow
    match p.node with
    | .seq tag _ =>
      if tag.any Yaml.Tag.isLocal then .fail .unreadable
      (Item.place p).listOf readTypeName
    | .map _ _ => (Item.place p).unexpected expected
    | _ => ofLeaf expected (← (Item.place p).settle)
  | .tree settled (.seq items) => (Item.tree settled (.seq items)).listOf readTypeName
  | .tree _ t => ofLeaf expected t
  | .nothing => return []
where
  /-- The names that a value other than a list gives. -/
  ofLeaf (expected : String) (t : Tree) : Read (List String) :=
    match t with
    | .null => return []
    | .str s => return [s]
    | t => (Item.tree true t).unexpected expected

/-- Reads a schema; `fuel` bounds how deep schemas nest in it. -/
def readWithin : Nat → Item → Read Schema
  | 0, _ => .fail .tooDeep
  | fuel + 1, item => do
    let inner := readWithin fuel
    let additional (item : Item) : Read (Additional Schema) := do
      let t := Item.tree true (← item.settle)
      Read.orElse (Additional.allowed <$> t.flag)
        (Read.orElse (Additional.shaped <$> inner t) (.fail (.noForm "AdditionalProperties")))
    item.record layout {} fun s field item => do
      match field with
      | "$ref" =>
        let pointer ← item.optional Item.text
        return { s with pointer := pointer.filter fun p => !p.isEmpty }
      | "type" => return { s with types := ← readTypes item }
      | "format" => return { s with format := ← item.optional Item.text }
      | "title" => return { s with title := ← item.optional Item.text }
      | "description" => return { s with description := ← item.optional Item.text }
      | "properties" => return { s with properties := ← item.table inner }
      | "items" => return { s with items := ← item.optional inner }
      | "additionalProperties" => return { s with additional := ← item.optional additional }
      | "required" => return { s with required := ← item.listOf Item.text }
      | "enum" => return { s with literals := ← item.listOf Item.value }
      | "allOf" => return { s with allOf := ← item.listOf inner }
      | "oneOf" => return { s with oneOf := ← item.listOf inner }
      | "anyOf" => return { s with anyOf := ← item.listOf inner }
      | "not" => return { s with negated := ← item.optional inner }
      | "nullable" => return { s with nullable := ← item.optional Item.flag }
      | "deprecated" => return { s with deprecated := ← item.flag }
      | _ => return s

/-- Reads a schema. -/
def read (item : Item) : Read Schema :=
  readWithin (item.height + 1) item

end Schema

-- ===================================================== shared entries

/-- Reads an entry that may be a pointer: a map whose `$ref` is a text is one,
whatever else it holds. -/
def Referable.read {α : Type} (inner : Item → Read α) (item : Item) : Read (Referable α) := do
  let t ← item.settle
  let layout : Layout := ⟨"struct variant RefOr::Ref", ["$ref"], ["$ref"]⟩
  let pointer : Read (Referable α) := do
    match t with
    | .map _ => return .pointer (← (Item.tree true t).record layout "" fun _ _ item => item.text)
    | t => (Item.tree true t).unexpected layout.title
  Read.orElse pointer
    (Read.orElse (.inline <$> inner (.tree true t)) (.fail (.noForm "RefOr")))

namespace Parameter

/-- The places of parameters by their spelling. -/
def places : List (String × ParameterPlace) :=
  [.path, .query, .header, .cookie, .queryString].map fun p => (p.name, p)

/-- Reads a parameter. -/
def read (item : Item) : Read Parameter :=
  item.record ⟨"struct Parameter",
      ["name", "in", "required", "description", "deprecated", "schema"], ["name", "in"]⟩
    { name := "", place := .path } fun p field item => do
      match field with
      | "name" => return { p with name := ← item.text }
      | "in" => return { p with place := ← item.variant false places }
      | "required" => return { p with required := ← item.flag }
      | "description" => return { p with description := ← item.optional Item.text }
      | "deprecated" => return { p with deprecated := ← item.flag }
      | "schema" => return { p with schema := ← item.optional Schema.read }
      | _ => return p

end Parameter

/-- Reads what a body looks like in one media type. -/
def MediaType.read (item : Item) : Read MediaType :=
  item.record ⟨"struct MediaType", ["schema"], []⟩ {} fun m field item => do
    match field with
    | "schema" => return { m with schema := ← item.optional Schema.read }
    | _ => return m

/-- Reads the body of a request. -/
def RequestBody.read (item : Item) : Read RequestBody :=
  item.record ⟨"struct RequestBody", ["description", "content", "required"], []⟩ {}
    fun b field item => do
      match field with
      | "description" => return { b with description := ← item.optional Item.text }
      | "content" => return { b with content := ← item.table MediaType.read }
      | "required" => return { b with required := ← item.flag }
      | _ => return b

/-- Reads an answer. -/
def Response.read (item : Item) : Read Response :=
  item.record ⟨"struct Response", ["description", "content"], []⟩ {} fun r field item => do
    match field with
    | "description" => return { r with description := ← item.text }
    | "content" => return { r with content := ← item.table MediaType.read }
    | _ => return r

/-- Reads security clauses. -/
def Clause.readList (item : Item) : Read (List Clause) :=
  item.listOf fun item => item.table fun item => item.listOf Item.text

-- ========================================================= path items

namespace Operation

/-- Reads an operation. -/
def read (item : Item) : Read Operation :=
  item.record ⟨"struct Operation", ["operationId", "summary", "description", "tags",
      "parameters", "requestBody", "responses", "security", "deprecated"], []⟩ {}
    fun o field item => do
      match field with
      | "operationId" => return { o with id := ← item.optional Item.text }
      | "summary" => return { o with summary := ← item.optional Item.text }
      | "description" => return { o with description := ← item.optional Item.text }
      | "tags" => return { o with tags := ← item.listOf Item.text }
      | "parameters" =>
        return { o with parameters := ← item.listOf (Referable.read Parameter.read) }
      | "requestBody" =>
        return { o with body := ← item.optional (Referable.read RequestBody.read) }
      | "responses" => return { o with responses := ← item.table (Referable.read Response.read) }
      | "security" => return { o with security := ← item.optional Clause.readList }
      | "deprecated" => return { o with deprecated := ← item.flag }
      | _ => return o

end Operation

/-- Reads a path. -/
def PathItem.read (item : Item) : Read PathItem :=
  item.record ⟨"struct PathItem", ["summary", "description", "get", "put", "post", "delete",
      "options", "head", "patch", "trace", "parameters"], []⟩ {}
    fun p field item => do
      match field with
      | "summary" => return { p with summary := ← item.optional Item.text }
      | "description" => return { p with description := ← item.optional Item.text }
      | "parameters" =>
        return { p with parameters := ← item.listOf (Referable.read Parameter.read) }
      | field =>
        match Verb.all.find? fun v => v.key == field with
        | some verb => return p.withOperation verb (← item.optional Operation.read)
        | none => return p

-- ==================================================== security schemes

namespace SecurityScheme

/-- The places of API keys by their spelling. -/
def keyPlaces : List (String × KeyPlace) :=
  [.header, .query, .cookie].map fun p => (p.name, p)

/-- The kinds of security schemes. -/
def kinds : List String := ["apiKey", "http", "oauth2", "openIdConnect", "mutualTLS"]

/-- Reads a scheme of a known kind from what stands beside the kind. -/
def readKind (kind : String) (item : Item) : Read SecurityScheme :=
  match kind with
  | "apiKey" => do
    let (name, place, description) ← item.record
      ⟨"struct variant SecurityScheme::ApiKey", ["name", "in", "description"], ["name", "in"]⟩
      ("", KeyPlace.header, none) fun s field item => do
        match field with
        | "name" => return (← item.text, s.2)
        | "in" => return (s.1, ← item.variant true keyPlaces, s.2.2)
        | _ => return (s.1, s.2.1, ← item.optional Item.text)
    return .apiKey name place description
  | "http" => do
    let (scheme, format, description) ← item.record
      ⟨"struct variant SecurityScheme::Http", ["scheme", "bearerFormat", "description"],
        ["scheme"]⟩
      ("", none, none) fun s field item => do
        match field with
        | "scheme" => return (← item.text, s.2)
        | "bearerFormat" => return (s.1, ← item.optional Item.text, s.2.2)
        | _ => return (s.1, s.2.1, ← item.optional Item.text)
    return .http scheme format description
  | "oauth2" => do
    let (flows, description) ← item.record
      ⟨"struct variant SecurityScheme::OAuth2", ["flows", "description"], []⟩
      (Json.Value.null, none) fun s field item => do
        match field with
        | "flows" => return (← item.value, s.2)
        | _ => return (s.1, ← item.optional Item.text)
    return .oauth2 flows description
  | "openIdConnect" => do
    let (url, description) ← item.record
      ⟨"struct variant SecurityScheme::OpenIdConnect", ["openIdConnectUrl", "description"], []⟩
      ("", none) fun s field item => do
        match field with
        | "openIdConnectUrl" => return (← item.text, s.2)
        | _ => return (s.1, ← item.optional Item.text)
    return .openIdConnect url description
  | _ => do
    let description ← item.record
      ⟨"struct variant SecurityScheme::MutualTls", ["description"], []⟩
      none fun _ _ item => item.optional Item.text
    return .mutualTls description

/-- Reads the kind of a scheme. -/
def readKindName (item : Item) : Read String := do
  match item with
  | .tree _ (.str s) => checked s
  | .place p => checked (← p.text "variant identifier")
  | item => item.unexpected "variant identifier"
where
  /-- Refuses a name that is no kind. -/
  checked (s : String) : Read String :=
    if kinds.contains s then return s else .fail (.unknownVariant s kinds)

/-- Takes the kind out of the bindings of a scheme; the rest is settled. -/
def splitBindings (bindings : List (Tree × Item)) : Read (String × Item) := do
  let (kind, others) ← bindings.foldlM
    (fun (s : Option String × List (Tree × Tree)) (k, v) => do
      match k with
      | .str "type" =>
        if s.1.isSome then .fail (.repeated "type")
        return (some (← readKindName v), s.2)
      | k => return (s.1, (k, ← v.settle) :: s.2))
    (none, [])
  match kind with
  | some kind => return (kind, .tree true (.map others.reverse))
  | none => .fail (.missing "type")

/-- Takes the kind off the front of a scheme given as a list. -/
def splitItems (items : List Item) : Read (String × Item) := do
  match items with
  | [] => .fail (.missing "type")
  | kind :: others =>
    let kind ← readKindName kind
    return (kind, .tree true (.seq (← others.mapM Item.settle)))

/-- Reads a security scheme. -/
def read (item : Item) : Read SecurityScheme := do
  let expected := "internally tagged enum SecurityScheme"
  let item ← item.target
  let (kind, others) ← match item with
    | .tree settled (.map bs) => splitBindings (bs.map fun (k, v) => (k, .tree settled v))
    | .tree settled (.seq items) => splitItems (items.map (.tree settled))
    | .place p =>
      match p.node with
      | .map tag bs => do
        if tag.any Yaml.Tag.isLocal then .fail .unreadable
        let p ← p.inner
        let bs ← bs.mapM fun (k, v) =>
          return (← (Item.place (p.turnTo k)).settle, Item.place (p.turnTo v))
        splitBindings bs
      | .seq tag _ => do
        if tag.any Yaml.Tag.isLocal then .fail .unreadable
        splitItems (← item.list)
      | _ => item.unexpected expected
    | item => item.unexpected expected
  readKind kind others

end SecurityScheme

-- =========================================================== documents

/-- Reads the shared entries. -/
def Components.read (item : Item) : Read Components :=
  item.record ⟨"struct Components",
      ["schemas", "responses", "parameters", "requestBodies", "securitySchemes"], []⟩ {}
    fun c field item => do
      match field with
      | "schemas" => return { c with schemas := ← item.table Schema.read }
      | "responses" => return { c with responses := ← item.table (Referable.read Response.read) }
      | "parameters" =>
        return { c with parameters := ← item.table (Referable.read Parameter.read) }
      | "requestBodies" =>
        return { c with requestBodies := ← item.table (Referable.read RequestBody.read) }
      | "securitySchemes" =>
        return { c with securitySchemes := ← item.table SecurityScheme.read }
      | _ => return c

/-- Reads what a document says about itself. -/
def Info.read (item : Item) : Read Info :=
  item.record ⟨"struct Info", ["title", "version", "description"], []⟩ {} fun i field item => do
    match field with
    | "title" => return { i with title := ← item.text }
    | "version" => return { i with version := ← item.text }
    | "description" => return { i with description := ← item.optional Item.text }
    | _ => return i

namespace Document

/-- Reads a document. -/
def read (item : Item) : Read Document :=
  item.record ⟨"struct Document",
      ["openapi", "info", "paths", "webhooks", "components", "security"], []⟩ {}
    fun d field item => do
      match field with
      | "openapi" => return { d with openapi := ← item.text }
      | "info" => return { d with info := ← Info.read item }
      | "paths" =>
        return { d with paths := ← item.optional fun item => item.table PathItem.read }
      | "webhooks" => return { d with webhooks := ← item.table PathItem.read }
      | "components" => return { d with components := ← item.optional Components.read }
      | "security" => return { d with security := ← item.optional Clause.readList }
      | _ => return d

-- ============================================================ loading

/-- The surface syntax of a document. -/
inductive Syntax where
  | yaml
  | json
deriving DecidableEq, Repr, Inhabited

/-- Why a document cannot be loaded. -/
inductive LoadError where
  /-- The file cannot be read; `reason` is the system's. -/
  | unavailable (path reason : String)
  | yaml (reason : String)
  | json (reason : String)
deriving DecidableEq, Repr

/-- The wording of a loading error. -/
def LoadError.message : LoadError → String
  | unavailable path reason => "E1001: cannot read " ++ path ++ ": " ++ reason
  | yaml reason => "E1002: YAML parse error: " ++ reason
  | json reason => "E1003: JSON parse error: " ++ reason

/-- How often the aliases of a stream may be followed. -/
def aliasLimit (root : Yaml.Node) : Nat := root.size * 100

/-- The item of a YAML stream. -/
def itemOfStream (stream : Yaml.Stream) : Item :=
  match stream.root with
  | some root => .place ⟨stream.targets, aliasLimit root, Place.maxDepth, root⟩
  | none => .nothing

/-- The document in an item; the reason why there is none, in words. -/
def ofItem (item : Item) : Except String Document :=
  match (read item).run 0 with
  | .ok (d, _) => .ok d
  | .error e => .error e.message

/-- Why octets hold no item at all. -/
def illFormed : String := "ill-formed text"

/-- Loads a document from the octets of a file. -/
def load (form : Syntax) (octets : List UInt8) : Except LoadError Document :=
  match form with
  | .yaml =>
    match Yaml.read? octets with
    | some stream => (ofItem (itemOfStream stream)).mapError .yaml
    | none => .error (.yaml illFormed)
  | .json =>
    match Json.Text.read? octets with
    | some t => (ofItem (.tree false t)).mapError .json
    | none => .error (.json illFormed)

end Document

end ApiForge
