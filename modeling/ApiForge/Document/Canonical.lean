import ApiForge.Document.Basic
/-!
Canonical schemas. Whether null is admitted can be written in two ways, as a type
name or as a flag; in canonical form it is a type name, the last one, and the
flag is absent. `Document.canonical` brings every schema of a document into this
form, those inside other schemas and beside a pointer included, and counts them.
Pointers are not followed, so each schema is visited once.
-/

namespace ApiForge

namespace Schema

/-- The canonical type names: without repetitions, and with null last if a name
or the flag admits it. -/
def canonicalTypes (types : List String) (nullable : Option Bool) : List String :=
  let given := if nullable == some true then types ++ [nullName] else types
  let names := given.eraseDups
  if names.contains nullName then names.filter (fun t => t != nullName) ++ [nullName]
  else names

mutual

/-- Makes a schema and all inside it canonical, counting them. -/
def canonical (s : Schema) : StateM Nat Schema :=
  match s with
  | { pointer, types, format, title, description, properties, items, additional, required,
      literals, allOf, oneOf, anyOf, negated, nullable, deprecated } => do
    modify (· + 1)
    let properties ← canonicalTable properties
    let items ← canonicalOption items
    let additional ← canonicalAdditional additional
    let allOf ← canonicalList allOf
    let oneOf ← canonicalList oneOf
    let anyOf ← canonicalList anyOf
    let negated ← canonicalOption negated
    return { pointer, types := canonicalTypes types nullable, format, title, description,
             properties, items, additional, required, literals, allOf, oneOf, anyOf, negated,
             nullable := none, deprecated }
termination_by structural s

/-- Makes the schemas of a table canonical. -/
def canonicalTable (t : List (String × Schema)) : StateM Nat (List (String × Schema)) :=
  match t with
  | [] => return []
  | (k, s) :: rest => do
    let s ← s.canonical
    let rest ← canonicalTable rest
    return (k, s) :: rest
termination_by structural t

/-- Makes the schemas of a list canonical. -/
def canonicalList (l : List Schema) : StateM Nat (List Schema) :=
  match l with
  | [] => return []
  | s :: rest => do
    let s ← s.canonical
    let rest ← canonicalList rest
    return s :: rest
termination_by structural l

/-- Makes a schema that may be absent canonical. -/
def canonicalOption (o : Option Schema) : StateM Nat (Option Schema) :=
  match o with
  | none => return none
  | some s => do
    let s ← s.canonical
    return some s
termination_by structural o

/-- Makes the schema of additional properties canonical. -/
def canonicalAdditional (o : Option (Additional Schema)) :
    StateM Nat (Option (Additional Schema)) :=
  match o with
  | none => return none
  | some (.allowed b) => return some (.allowed b)
  | some (.shaped s) => do
    let s ← s.canonical
    return some (.shaped s)
termination_by structural o

end

end Schema

-- ======================================================== other parts

/-- Changes the values of a table one after the other. -/
def Table.mapM {α β : Type} {m : Type → Type} [Monad m] (f : α → m β) (t : Table α) :
    m (Table β) :=
  List.mapM (fun (k, a) => do return (k, ← f a)) t

/-- Changes what an entry holds itself; a pointer stays. -/
def Referable.mapM {α : Type} {m : Type → Type} [Monad m] (f : α → m α) :
    Referable α → m (Referable α)
  | .pointer target => return .pointer target
  | .inline a => return .inline (← f a)

/-- Makes the schema of a media type canonical. -/
def MediaType.canonical (m : MediaType) : StateM Nat MediaType := do
  return { m with schema := ← Schema.canonicalOption m.schema }

/-- Makes the schema of a parameter canonical. -/
def Parameter.canonical (p : Parameter) : StateM Nat Parameter := do
  return { p with schema := ← Schema.canonicalOption p.schema }

/-- Makes the schemas of a request body canonical. -/
def RequestBody.canonical (b : RequestBody) : StateM Nat RequestBody := do
  return { b with content := ← Table.mapM MediaType.canonical b.content }

/-- Makes the schemas of an answer canonical. -/
def Response.canonical (r : Response) : StateM Nat Response := do
  return { r with content := ← Table.mapM MediaType.canonical r.content }

/-- Makes the schemas of an operation canonical. -/
def Operation.canonical (o : Operation) : StateM Nat Operation := do
  let parameters ← o.parameters.mapM (Referable.mapM Parameter.canonical)
  let body ← o.body.mapM (Referable.mapM RequestBody.canonical)
  let responses ← Table.mapM (Referable.mapM Response.canonical) o.responses
  return { o with parameters, body, responses }

/-- Makes the schemas of a path canonical. -/
def PathItem.canonical (p : PathItem) : StateM Nat PathItem := do
  let parameters ← p.parameters.mapM (Referable.mapM Parameter.canonical)
  let operations ← p.operations.mapM fun (v, o) => do return (v, ← o.canonical)
  return { p with parameters, operation := fun v => operations.lookup v }

/-- Makes the shared schemas canonical. -/
def Components.canonical (c : Components) : StateM Nat Components := do
  let schemas ← Schema.canonicalTable c.schemas
  let responses ← Table.mapM (Referable.mapM Response.canonical) c.responses
  let parameters ← Table.mapM (Referable.mapM Parameter.canonical) c.parameters
  let requestBodies ← Table.mapM (Referable.mapM RequestBody.canonical) c.requestBodies
  return { c with schemas, responses, parameters, requestBodies }

/-- The document with all schemas in canonical form, and how many there are. -/
def Document.canonical (d : Document) : Document × Nat :=
  let walk : StateM Nat Document := do
    let components ← d.components.mapM Components.canonical
    let paths ← d.paths.mapM (Table.mapM PathItem.canonical)
    let webhooks ← Table.mapM PathItem.canonical d.webhooks
    return { d with components, paths, webhooks }
  walk.run 0

end ApiForge
