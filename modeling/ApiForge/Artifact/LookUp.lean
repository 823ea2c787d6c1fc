import ApiForge.Artifact.Generate
/-!
What generation looks up in a document, step by step. The list follows the course
of `Settings.generate` through the catalog, the types, the server and the webhooks;
it is what the finest log records of a run show. Shapes are found anew wherever a
schema stands, so a pointer may occur in it many times.
-/

namespace ApiForge

/-- A step of generation that looks something up, or need not. -/
inductive LookUp where
  /-- A pointer is resolved. -/
  | resolve (pointer : String)
  /-- A pointer is passed over: what it leads to is being merged already. -/
  | passOver (pointer : String)
  /-- A schema is passed over: its exported name is taken. -/
  | passOverSchema (raw name : String)
deriving DecidableEq, Repr

-- ============================================================== shapes

namespace Document

/-- What merging looks up; see `Document.declarations`. When the budget is used up
every pointer is on the stack. -/
def mergeLookUps (d : Document) : Nat → List String → List MergeStep → List LookUp
  | 0, stack, steps =>
    steps.flatMap fun step =>
      match step with
      | .declare _ _ => []
      | .follow p => if stack.contains p then [.passOver p] else []
  | budget + 1, stack, steps =>
    steps.flatMap fun step =>
      match step with
      | .declare _ _ => []
      | .follow p =>
        if stack.contains p then [.passOver p]
        else
          .resolve p :: match d.resolveSchema p with
            | .ok target =>
              match target.pointer with
              | some _ => []
              | none => mergeLookUps d budget (p :: stack) target.mergeSteps
            | .error _ => []

/-- What the shape of a merged schema looks up. -/
def mergedLookUps (d : Document) (inner : Schema → List LookUp) (s : Schema) : List LookUp :=
  d.mergeLookUps (d.mergePointers s).length [] s.mergeSteps
    ++ (Declaration.allProperties (d.merge s)).flatMap fun p => inner p.2

/-- What the shape of an object looks up. -/
def objectLookUps (inner : Schema → List LookUp) (s : Schema) : List LookUp :=
  if s.properties.isEmpty then
    match s.additional with
    | some (.shaped value) => inner value
    | _ => []
  else s.properties.flatMap fun p => inner p.2

/-- What the shape of a schema without `allOf` looks up. -/
def plainLookUps (inner : Schema → List LookUp) (s : Schema) : List LookUp :=
  if !s.oneOf.isEmpty || !s.anyOf.isEmpty then []
  else
    match Schema.primaryType s.types with
    | some "array" => (s.items.map inner).getD []
    | some "object" => objectLookUps inner s
    | some _ => []
    | none => if s.properties.isEmpty then [] else objectLookUps inner s

/-- What a shape looks up, if `depth` bounds how deep shapes nest in it. -/
def shapeLookUpsWithin (d : Document) : Nat → Schema → List LookUp
  | 0, _ => []
  | depth + 1, s =>
    match s.pointer with
    | some _ => []
    | none =>
      match s.allOf with
      | [] => plainLookUps (shapeLookUpsWithin d depth) s
      | [single] =>
        if s.properties.isEmpty then shapeLookUpsWithin d depth single
        else d.mergedLookUps (shapeLookUpsWithin d depth) s
      | _ => d.mergedLookUps (shapeLookUpsWithin d depth) s

/-- What the shape of a schema looks up. -/
def shapeLookUps (d : Document) (s : Schema) : List LookUp :=
  d.shapeLookUpsWithin (d.schemaCount + 1) s

/-- What the shape of a body looks up, where there is one. -/
def contentLookUps (d : Document) (c : Content) : List LookUp :=
  match c.json? with
  | some { schema := some s, .. } => d.shapeLookUps s
  | _ => []

end Document

-- =========================================================== artifacts

/-- What an entry looks up: its pointer if it is one, and what it holds. -/
def Referable.lookUps {α : Type} (resolve : String → Except ResolveError α)
    (inner : α → List LookUp) : Referable α → List LookUp
  | .inline a => inner a
  | .pointer p =>
    .resolve p :: match resolve p with
      | .ok a => inner a
      | .error _ => []

/-- What the catalog looks up. -/
def Catalog.lookUps (d : Document) : List LookUp :=
  d.schemas.flatMap fun (_, s) => d.shapeLookUps s

/-- What the definitions of catalog entries look up. -/
def TypesModule.lookUps (c : Catalog) : List CatalogEntry → StateM Hoist (List LookUp)
  | [] => return []
  | e :: rest => do
    if ← Hoist.claim e.name then
      let _ ← Definition.ofShape c e.name e.schema.ownDescription e.shape
      let _ ← Definition.drain c
      return c.document.shapeLookUps e.schema ++ (← TypesModule.lookUps c rest)
    else return .passOverSchema e.raw e.name :: (← TypesModule.lookUps c rest)

namespace OperationPlan

/-- What the parameters of an operation look up: first every pointer, then the
shapes of those that requests are read from. -/
def parameterLookUps (d : Document) (e : Document.Endpoint) : List LookUp :=
  let pointers := (e.item.parameters ++ e.operation.parameters).flatMap
    (Referable.lookUps d.resolveParameter fun _ => [])
  let merged := (Parameter.merged d e.item e.operation "").toOption.getD []
  let read := merged.filter fun p => (RequestField.requiredIn p).isSome
  pointers ++ read.flatMap fun p => (p.schema.map d.shapeLookUps).getD []

/-- What an answer looks up; one without a body only its pointer. -/
def responseLookUps (d : Document) (key : String) (r : Referable Response) : List LookUp :=
  match ResponseVariant.statusOf? key with
  | none => []
  | some status =>
    r.lookUps d.resolveResponse fun r => if status = 204 then [] else d.contentLookUps r.content

/-- What the body of a request looks up. -/
def bodyLookUps (d : Document) (b : Option (Referable RequestBody)) : List LookUp :=
  (b.map (Referable.lookUps d.resolveRequestBody fun b => d.contentLookUps b.content)).getD []

/-- What the plan of an operation looks up. -/
def lookUps (d : Document) (e : Document.Endpoint) : List LookUp :=
  parameterLookUps d e ++ bodyLookUps d e.operation.body
    ++ e.operation.responses.flatMap fun (key, r) => responseLookUps d key r

end OperationPlan

/-- What the webhooks look up. -/
def WebhookModule.lookUps (d : Document) : List LookUp :=
  d.webhooks.flatMap fun (_, item) =>
    item.operations.flatMap fun (_, o) => OperationPlan.bodyLookUps d o.body

/-- What the generation of all artifacts looks up. -/
def Settings.lookUps (s : Settings) (d : Document) : List LookUp :=
  match Catalog.ofDocument? d with
  | none => []
  | some c =>
    Catalog.lookUps d ++ ((TypesModule.lookUps c c.entries).run {}).1
      ++ d.operations.flatMap (OperationPlan.lookUps d)
      ++ (if s.emitWebhooks then WebhookModule.lookUps d else [])

end ApiForge
