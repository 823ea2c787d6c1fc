import ApiForge.Proofs.Document.Alike
import ApiForge.Reference.Check
/-!
Documents without their prose.

`Document.terse` takes out of a document whatever is written for people only:
the descriptions and summaries of all its parts, and what it says about itself.
Nothing else goes, so what stands in the document is found as before: its
schemas are as many (`terse_schemaCount`), its operations stand at the same
places (`terse_operations`), and every pointer leads to what it led to, without
prose, or fails as it did (`terse_follow`).
-/

namespace ApiForge

variable {α β : Type}

-- ============================================================ containers

/-- The table with other values under the same keys. -/
def Table.mapValues (f : α → β) (t : Table α) : Table β :=
  t.map fun e => (e.1, f e.2)

theorem Table.mapValues_cons (f : α → β) (e : String × α) (t : Table α) :
    Table.mapValues f (e :: t) = (e.1, f e.2) :: t.mapValues f := rfl

/-- The entry with another value if it is written out. -/
def Referable.map (f : α → β) : Referable α → Referable β
  | .pointer target => .pointer target
  | .inline a => .inline (f a)

/-- The switch as it is, or another schema. -/
def Additional.map (f : α → β) : Additional α → Additional β
  | .allowed yes => .allowed yes
  | .shaped a => .shaped (f a)

-- ================================================================= terse

namespace Schema

mutual

/-- The schema without descriptions, its own and those of what stands in it. -/
def terse (s : Schema) : Schema :=
  match s with
  | { pointer, types, format, title, properties, items, additional, required,
      literals, allOf, oneOf, anyOf, negated, nullable, deprecated, .. } =>
    { pointer, types, format, title, description := none
      properties := terseTable properties, items := terseOption items
      additional := terseAdditional additional, required, literals
      allOf := terseList allOf, oneOf := terseList oneOf
      anyOf := terseList anyOf, negated := terseOption negated
      nullable, deprecated }
termination_by structural s

/-- The table with terse schemas. -/
def terseTable (t : List (String × Schema)) : List (String × Schema) :=
  match t with
  | [] => []
  | (k, s) :: rest => (k, s.terse) :: terseTable rest
termination_by structural t

/-- The list with terse schemas. -/
def terseList (l : List Schema) : List Schema :=
  match l with
  | [] => []
  | s :: rest => s.terse :: terseList rest
termination_by structural l

/-- The terse schema, if there is one. -/
def terseOption (o : Option Schema) : Option Schema :=
  match o with
  | none => none
  | some s => some s.terse
termination_by structural o

/-- The terse schema of additional properties, if there is one. -/
def terseAdditional (o : Option (Additional Schema)) :
    Option (Additional Schema) :=
  match o with
  | none => none
  | some (.allowed yes) => some (.allowed yes)
  | some (.shaped s) => some (.shaped s.terse)
termination_by structural o

end

theorem terseTable_eq (t : List (String × Schema)) :
    terseTable t = Table.mapValues terse t := by
  induction t with
  | nil => rfl
  | cons e rest ih => rw [terseTable, ih]; rfl

theorem terseList_eq (l : List Schema) : terseList l = l.map terse := by
  induction l with
  | nil => rfl
  | cons s rest ih => rw [terseList, ih, List.map_cons]

theorem terseOption_eq (o : Option Schema) : terseOption o = o.map terse := by
  cases o <;> rfl

theorem terseAdditional_eq (o : Option (Additional Schema)) :
    terseAdditional o = o.map (Additional.map terse) := by
  rcases o with _ | _ | s <;> rfl

/-- A terse schema has no description, and terse schemas stand in it. -/
theorem terse_eq (s : Schema) : s.terse = { s with
    description := none, properties := Table.mapValues terse s.properties
    items := s.items.map terse
    additional := s.additional.map (Additional.map terse)
    allOf := s.allOf.map terse, oneOf := s.oneOf.map terse
    anyOf := s.anyOf.map terse, negated := s.negated.map terse } := by
  cases s
  simp only [terse, terseTable_eq, terseList_eq, terseOption_eq,
    terseAdditional_eq]

end Schema

/-- The media type with a terse schema. -/
def MediaType.terse (m : MediaType) : MediaType :=
  { m with schema := m.schema.map Schema.terse }

/-- The parameter without descriptions. -/
def Parameter.terse (p : Parameter) : Parameter :=
  { p with description := none, schema := p.schema.map Schema.terse }

/-- The request body without descriptions. -/
def RequestBody.terse (b : RequestBody) : RequestBody :=
  { b with
    description := none, content := Table.mapValues MediaType.terse b.content }

/-- The answer without descriptions. -/
def Response.terse (r : Response) : Response :=
  { r with
    description := "", content := Table.mapValues MediaType.terse r.content }

/-- The operation without descriptions and summary. -/
def Operation.terse (o : Operation) : Operation :=
  { o with
    summary := none, description := none
    parameters := o.parameters.map (Referable.map Parameter.terse)
    body := o.body.map (Referable.map RequestBody.terse)
    responses := Table.mapValues (Referable.map Response.terse) o.responses }

/-- The path without descriptions and summaries. -/
def PathItem.terse (p : PathItem) : PathItem :=
  { p with
    summary := none, description := none
    operation := fun v => (p.operation v).map Operation.terse
    parameters := p.parameters.map (Referable.map Parameter.terse) }

/-- The scheme without a description. -/
def SecurityScheme.terse : SecurityScheme → SecurityScheme
  | .apiKey name place _ => .apiKey name place none
  | .http scheme bearerFormat _ => .http scheme bearerFormat none
  | .oauth2 flows _ => .oauth2 flows none
  | .openIdConnect url _ => .openIdConnect url none
  | .mutualTls _ => .mutualTls none

/-- The shared entries without descriptions. -/
def Components.terse (c : Components) : Components where
  schemas := Table.mapValues Schema.terse c.schemas
  responses := Table.mapValues (Referable.map Response.terse) c.responses
  parameters := Table.mapValues (Referable.map Parameter.terse) c.parameters
  requestBodies :=
    Table.mapValues (Referable.map RequestBody.terse) c.requestBodies
  securitySchemes := Table.mapValues SecurityScheme.terse c.securitySchemes

/-- The document without descriptions and summaries, and without what it says
about itself. -/
def Document.terse (d : Document) : Document :=
  { d with
    info := {}
    paths := d.paths.map (Table.mapValues PathItem.terse)
    webhooks := Table.mapValues PathItem.terse d.webhooks
    components := d.components.map Components.terse }

-- =============================================================== counting

namespace Schema

/-- The children of a schema without prose are its children without prose. -/
theorem children_terse (s : Schema) :
    s.terse.children = s.children.map terse := by
  have hadditional : additionalSchema? s.terse.additional
      = (additionalSchema? s.additional).map terse := by
    rw [terse_eq]
    rcases s.additional with _ | _ | _ <;> rfl
  rw [children, hadditional, terse_eq]
  simp [children, Table.mapValues, Option.toList_map]

/-- The nodes of a schema without prose are its nodes without prose. -/
theorem nodes_terse (s : Schema) : s.terse.nodes = s.nodes.map terse := by
  induction s using induct with
  | step s ih =>
      rw [nodes_eq, nodes_eq s, children_terse, List.map_cons,
        List.flatMap_map, List.map_flatMap]
      exact congrArg (s.terse :: ·) (List.flatMap_congr ih)

end Schema

/-- The schemas of a terse entry. -/
theorem Referable.roots_map {f : α → α} {inner : α → List Schema}
    (h : ∀ a, inner (f a) = (inner a).map Schema.terse) (e : Referable α) :
    (e.map f).roots inner = (e.roots inner).map Schema.terse := by
  cases e with
  | pointer target => rfl
  | inline a => exact h a

/-- The schemas of a content without prose are its schemas without prose. -/
theorem Content.roots_terse (c : Content) :
    Content.roots (Table.mapValues MediaType.terse c)
      = (Content.roots c).map Schema.terse := by
  rw [Content.roots, Content.roots, Table.mapValues, List.flatMap_map,
    List.map_flatMap]
  exact List.flatMap_congr fun e _ => Option.toList_map ..

/-- The schemas of a parameter without prose are its schemas without prose. -/
theorem Parameter.roots_terse (p : Referable Parameter) :
    Parameter.roots (p.map Parameter.terse)
      = (Parameter.roots p).map Schema.terse :=
  Referable.roots_map (f := Parameter.terse)
    (fun _ => Option.toList_map ..) p

theorem RequestBody.roots_terse (b : Referable RequestBody) :
    RequestBody.roots (b.map RequestBody.terse)
      = (RequestBody.roots b).map Schema.terse :=
  Referable.roots_map (fun b => Content.roots_terse b.content) b

theorem Response.roots_terse (r : Referable Response) :
    Response.roots (r.map Response.terse)
      = (Response.roots r).map Schema.terse :=
  Referable.roots_map (fun r => Content.roots_terse r.content) r

theorem Operation.roots_terse (o : Operation) :
    o.terse.roots = o.roots.map Schema.terse := by
  simp only [Operation.roots, Operation.terse, Table.mapValues,
    Option.toList_map, List.flatMap_map, List.map_append, List.map_flatMap,
    Parameter.roots_terse, RequestBody.roots_terse, Response.roots_terse]

/-- The operations of a terse path are those of the path, terse. -/
theorem PathItem.operations_terse (p : PathItem) :
    p.terse.operations = p.operations.map fun e => (e.1, e.2.terse) := by
  rw [PathItem.operations, PathItem.operations, List.map_filterMap]
  refine List.filterMap_congr fun v _ => ?_
  simp only [PathItem.terse, Option.map_map]
  rfl

/-- The schemas of an item without prose are its schemas without prose. -/
theorem PathItem.roots_terse (p : PathItem) :
    p.terse.roots = p.roots.map Schema.terse := by
  rw [PathItem.roots, operations_terse]
  simp only [PathItem.roots, PathItem.terse, List.flatMap_map,
    List.map_append, List.map_flatMap, Parameter.roots_terse,
    Operation.roots_terse]

/-- The schemas of components without prose are their schemas without prose. -/
theorem Components.roots_terse (c : Components) :
    c.terse.roots = c.roots.map Schema.terse := by
  simp only [Components.roots, Components.terse, Table.mapValues,
    List.flatMap_map, List.map_append, List.map_flatMap, List.map_map,
    Parameter.roots_terse, RequestBody.roots_terse, Response.roots_terse]
  rfl

namespace Document

/-- The schemas of a document without prose are its schemas without prose. -/
theorem roots_terse (d : Document) :
    d.terse.roots = d.roots.map Schema.terse := by
  have hpaths : d.terse.paths.getD []
      = Table.mapValues PathItem.terse (d.paths.getD []) := by
    rw [terse]
    cases d.paths <;> rfl
  rw [roots, hpaths]
  simp only [roots, terse, Table.mapValues, Option.toList_map,
    List.flatMap_map, List.map_append, List.map_flatMap,
    Components.roots_terse, PathItem.roots_terse]

/-- As many schemas stand in a document without its prose. -/
theorem schemaCount_terse (d : Document) :
    d.terse.schemaCount = d.schemaCount := by
  rw [schemaCount_eq, schemaCount_eq, nodes, nodes, roots_terse,
    List.flatMap_map]
  simp only [Schema.nodes_terse, List.length_flatMap, List.length_map]

end Document

-- ============================================================ references

/-- The component without its prose. -/
def Component.terse : Component → Component
  | .schema s => .schema s.terse
  | .response r => .response r.terse
  | .parameter p => .parameter p.terse
  | .requestBody b => .requestBody b.terse

theorem Component.kind_terse (c : Component) : c.terse.kind = c.kind := by
  cases c <;> rfl

/-- What stands at an address, without its prose. -/
def Slot.terse : Slot → Slot
  | .component c => .component c.terse
  | .pointer target => .pointer target

/-- The found component without its prose, at the same address. -/
def Found.terse (f : Found) : Found :=
  { f with component := f.component.terse }

/-- A key finds the mapped value. -/
theorem Table.get?_mapValues (f : α → β) (t : Table α) (k : String) :
    (t.mapValues f).get? k = (t.get? k).map f := by
  induction t with
  | nil => rfl
  | cons e rest ih =>
      rw [mapValues_cons, get?, get?]
      split
      · rfl
      · exact ih

namespace Components

/-- What stands under a key of a terse table of entries. -/
theorem slotOf_mapValues {f : α → α} {wrap : α → Component}
    (h : ∀ a, wrap (f a) = (wrap a).terse) (t : Table (Referable α))
    (k : String) :
    ((Table.mapValues (Referable.map f) t).get? k).map (slotOf wrap)
      = ((t.get? k).map (slotOf wrap)).map Slot.terse := by
  rw [Table.get?_mapValues]
  match t.get? k with
  | none => rfl
  | some (.pointer target) => rfl
  | some (.inline a) => exact congrArg (some ∘ Slot.component) (h a)

/-- What an address leads to among components loses its prose with them. -/
theorem slot?_terse (c : Components) (a : Address) :
    c.terse.slot? a = (c.slot? a).map Slot.terse := by
  rw [slot?, slot?]
  cases a.kind with
  | schema =>
      simp only [terse, Table.get?_mapValues, Option.map_map]
      rfl
  | response =>
      exact slotOf_mapValues (f := Response.terse) (fun _ => rfl)
        c.responses a.name
  | parameter =>
      exact slotOf_mapValues (f := Parameter.terse) (fun _ => rfl)
        c.parameters a.name
  | requestBody =>
      exact slotOf_mapValues (f := RequestBody.terse) (fun _ => rfl)
        c.requestBodies a.name

/-- Mapping what stands in place leaves the targets of references. -/
theorem targets_mapValues (f : α → α) (t : Table (Referable α)) :
    (t.mapValues (Referable.map f)).filterMap (fun e => targetOf? e.2)
      = t.filterMap fun e => targetOf? e.2 := by
  rw [Table.mapValues, List.filterMap_map]
  refine List.filterMap_congr fun e _ => ?_
  obtain ⟨_, _ | _⟩ := e <;> rfl

theorem targets_terse (c : Components) : c.terse.targets = c.targets := by
  simp only [targets, terse, targets_mapValues]

end Components

namespace Document

theorem shared_terse (d : Document) : d.terse.shared = d.shared.terse := by
  rw [shared, shared, terse]
  cases d.components <;> rfl

theorem schemas_terse (d : Document) :
    d.terse.schemas = Table.mapValues Schema.terse d.schemas := by
  rw [schemas, shared_terse]
  rfl

theorem pathTable_terse (d : Document) :
    d.terse.pathTable = Table.mapValues PathItem.terse d.pathTable := by
  rw [pathTable, pathTable, terse]
  cases d.paths <;> rfl

/-- A pointer finds the same entry, without prose. -/
theorem lookUp_terse (d : Document) (p : String) :
    d.terse.lookUp p = (d.lookUp p).map fun x => (x.1, x.2.terse) := by
  rw [lookUp, lookUp, shared_terse]
  cases Pointer.parse p with
  | error e => rfl
  | ok a =>
      simp only [bind, Except.bind, Components.slot?_terse]
      cases d.shared.slot? a <;> rfl

theorem demand_terse (expected : EntryKind) (p : String) (f : Found) :
    demand expected p f.terse = (demand expected p f).map Found.terse := by
  rw [demand, demand, Found.terse, Component.kind_terse]
  split <;> rfl

/-- A pointer is followed in the terse document as in the document. The
induction is on the pointers that may still be passed. -/
theorem follow_terse (d : Document) (unvisited : List String) (p : String) :
    d.terse.follow unvisited p = (d.follow unvisited p).map Found.terse := by
  induction hn : unvisited.length using Nat.strong_induction_on
    generalizing unvisited p with | h n ih => ?_
  rw [follow, follow, lookUp_terse]
  match d.lookUp p with
  | .error e => rfl
  | .ok (a, .component c) => rfl
  | .ok (a, .pointer target) =>
      by_cases ht : target ∈ unvisited
      · have hless : (unvisited.erase target).length < n := by
          have hpos := List.length_pos_of_mem ht
          rw [← hn, List.length_erase_of_mem ht]
          omega
        simp only [Except.map, Slot.terse, ht, ↓reduceDIte,
          ih _ hless _ target rfl]
        cases d.follow (unvisited.erase target) target with
        | error e => rfl
        | ok f => exact demand_terse _ _ f
      · simp only [Except.map, Slot.terse, ht, ↓reduceDIte]

theorem resolve_terse (d : Document) (p : String) :
    d.terse.resolve p = (d.resolve p).map Found.terse := by
  rw [resolve, resolve, unvisitedAfter, unvisitedAfter, shared_terse,
    Components.targets_terse, follow_terse]

theorem resolveSchema_terse (d : Document) (p : String) :
    d.terse.resolveSchema p = (d.resolveSchema p).map Schema.terse := by
  rw [resolveSchema, resolveSchema, resolve_terse]
  rcases d.resolve p with _ | ⟨_, _ | _ | _ | _⟩ <;> rfl

/-- A pointer resolves to the same parameter, without prose. -/
theorem resolveParameter_terse (d : Document) (p : String) :
    d.terse.resolveParameter p
      = (d.resolveParameter p).map Parameter.terse := by
  rw [resolveParameter, resolveParameter, resolve_terse]
  rcases d.resolve p with _ | ⟨_, _ | _ | _ | _⟩ <;> rfl

theorem resolveResponse_terse (d : Document) (p : String) :
    d.terse.resolveResponse p = (d.resolveResponse p).map Response.terse := by
  rw [resolveResponse, resolveResponse, resolve_terse]
  rcases d.resolve p with _ | ⟨_, _ | _ | _ | _⟩ <;> rfl

/-- A pointer resolves to the same body, without prose. -/
theorem resolveRequestBody_terse (d : Document) (p : String) :
    d.terse.resolveRequestBody p
      = (d.resolveRequestBody p).map RequestBody.terse := by
  rw [resolveRequestBody, resolveRequestBody, resolve_terse]
  rcases d.resolve p with _ | ⟨_, _ | _ | _ | _⟩ <;> rfl

end Document

-- ============================================================ operations

/-- The operation without its prose, where it stands. -/
def Document.Endpoint.terse (e : Document.Endpoint) : Document.Endpoint :=
  { e with item := e.item.terse, operation := e.operation.terse }

/-- The operations of a document lose their prose with it. -/
theorem Document.operations_terse (d : Document) :
    d.terse.operations = d.operations.map Endpoint.terse := by
  rw [operations, operations, pathTable_terse, Table.mapValues,
    List.flatMap_map, List.map_flatMap]
  refine List.flatMap_congr fun e _ => ?_
  simp only [PathItem.operations_terse, List.map_map]
  rfl

end ApiForge
