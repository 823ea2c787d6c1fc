import ApiForge.Proofs.Artifact.Closed
import ApiForge.Proofs.Artifact.Routes
import ApiForge.Proofs.Petstore.Body
import ApiForge.Proofs.Petstore.Inquiry
/-!
The sample service is the one that is generated from its description.

The routes of the service, what they ask for, its schemes and the types of its
bodies are definitions of their own. The generator makes the same tables of the
document `description`: what is read back of the server, the security and the
types is what the service has (`service_described`).
-/

namespace ApiForge

open Source (Step skip skip_append skip_of_ne)

-- ============================================================== schemes

namespace SecurityScheme

/-- Where a service looks for a key. -/
def keyPlace : KeyPlace → Auth.KeyPlace
  | .header => .header
  | .query => .query
  | .cookie => .cookie

/-- What a service makes of a declared scheme. -/
def scheme : SecurityScheme → Auth.Scheme
  | apiKey name place _ => .apiKey name (keyPlace place)
  | http word _ _ => .ofWord word
  | oauth2 _ _ => .oauth2
  | openIdConnect _ _ => .openIdConnect
  | mutualTls _ => .mutualTls

end SecurityScheme

namespace SecurityModule

/-- The module in which the source finds schemes. -/
def schemeHome : String := "oasgen_runtime::security::"

/-- Reads the place of a key, up to the end of the line. -/
def readPlace? (cs : List Char) : Option Auth.KeyPlace :=
  ([.header, .query, .cookie].find? fun place =>
    cs == (placeConstant place).toList ++ ")".toList ++ ");".toList).map
      SecurityScheme.keyPlace

/-- Reads the scheme of a key. -/
def readKeyScheme? (cs : List Char) : Option Auth.Scheme := do
  let (name, cs) ← Text.Quoted.read? (← skip "SecurityScheme::api_key(" cs)
  let cs ← skip "ApiKeyLocation::" (← skip schemeHome (← skip ", " cs))
  return .apiKey name (← readPlace? cs)

/-- Reads the scheme of a word. -/
def readWordScheme? (cs : List Char) : Option Auth.Scheme := do
  let (word, _) ← Text.Quoted.read? (← skip "SecurityScheme::http(" cs)
  return .ofWord word

/-- Reads a scheme without further data. -/
def readBareScheme? (cs : List Char) : Option Auth.Scheme :=
  ([("SecurityScheme::OAuth2", .oauth2), ("SecurityScheme::OpenIdConnect", .openIdConnect),
    ("SecurityScheme::MutualTls", .mutualTls)].find? fun e =>
      cs == e.1.toList ++ ");".toList).map (·.2)

/-- Reads a scheme, up to the end of the line. -/
def readScheme? (cs : List Char) : Option Auth.Scheme := do
  let cs ← skip schemeHome cs
  (readKeyScheme? cs).or ((readWordScheme? cs).or (readBareScheme? cs))

/-- The scheme that a line enters, with its name. -/
def entered? : Step → Option (String × Auth.Scheme)
  | .line text => do
    let (name, cs) ← Text.Quoted.read? (← skip "schemes.insert(" text.toList)
    return (name, ← readScheme? (← skip ".to_string(), " cs))
  | _ => none

/-- Whether a step ends a block. -/
def isLeave : Step → Bool
  | .leave _ => true
  | _ => false

/-- The steps of the first block that begins with a text. -/
def blockOf (opening : String) : List Step → List Step
  | [] => []
  | .enter text :: rest =>
    if text = opening then rest.takeWhile fun step => !isLeave step else blockOf opening rest
  | _ :: rest => blockOf opening rest

/-- A block that begins with the text is the first. -/
theorem blockOf_enter (opening : String) (rest : List Step) :
    blockOf opening (.enter opening :: rest) = rest.takeWhile fun step => !isLeave step :=
  if_pos rfl

/-- How the function for the table of schemes begins. -/
def schemesOpening : String :=
  "pub fn schemes() -> oasgen_runtime::security::SchemeTable \x7b"

/-- The schemes that are entered by the function for their table, in order. -/
def schemesIn (steps : List Step) : Auth.SchemeTable :=
  (blockOf schemesOpening steps).filterMap entered?

/-- What stands behind the module of a scheme. -/
def schemeCall : SecurityScheme → List Char
  | .apiKey key place _ => "SecurityScheme::api_key(".toList
      ++ ((Text.Quoted.encode key).toList ++ (", ".toList ++ (schemeHome.toList
        ++ ("ApiKeyLocation::".toList ++ ((placeConstant place).toList ++ ")".toList)))))
  | .http word _ _ =>
      "SecurityScheme::http(".toList ++ ((Text.Quoted.encode word).toList ++ ")".toList)
  | .oauth2 _ _ => "SecurityScheme::OAuth2".toList
  | .openIdConnect _ _ => "SecurityScheme::OpenIdConnect".toList
  | .mutualTls _ => "SecurityScheme::MutualTls".toList

theorem toList_schemeExpr (s : SecurityScheme) :
    (schemeExpr s).toList = schemeHome.toList ++ schemeCall s := by
  cases s <;>
    (unfold schemeExpr schemeCall schemeHome
     simp only [Definition.literal, String.toList_append, List.append_assoc])

/-- The place of a key is read as it is written. -/
theorem readPlace?_constant (place : KeyPlace) :
    readPlace? ((placeConstant place).toList ++ (")".toList ++ ");".toList))
      = some (SecurityScheme.keyPlace place) := by
  cases place <;> decide

/-- The call for a key is read with its name and place. -/
theorem readKeyScheme?_apiKey (name : String) (place : KeyPlace) (description : Option String) :
    readKeyScheme? (schemeCall (.apiKey name place description) ++ ");".toList)
      = some (.apiKey name (SecurityScheme.keyPlace place)) := by
  unfold readKeyScheme? schemeCall
  simp only [List.append_assoc, skip_append, Text.Quoted.read?_encode,
    Option.bind_eq_bind, Option.bind_some, readPlace?_constant]
  rfl

/-- The call for a word is read with the word. -/
theorem readWordScheme?_http (word : String) (format description : Option String) :
    readWordScheme? (schemeCall (.http word format description) ++ ");".toList)
      = some (.ofWord word) := by
  unfold readWordScheme? schemeCall
  simp only [List.append_assoc, skip_append, Text.Quoted.read?_encode,
    Option.bind_eq_bind, Option.bind_some]
  rfl

/-- The call for a word is not that for a key. -/
theorem readKeyScheme?_http (word : String) (format description : Option String) :
    readKeyScheme? (schemeCall (.http word format description) ++ ");".toList) = none := by
  unfold readKeyScheme? schemeCall
  rw [List.append_assoc]
  rfl

/-- A scheme is read as it is written. -/
theorem readScheme?_schemeExpr (s : SecurityScheme) :
    readScheme? ((schemeExpr s).toList ++ ");".toList) = some s.scheme := by
  have hcall : readScheme? ((schemeExpr s).toList ++ ");".toList)
      = (readKeyScheme? (schemeCall s ++ ");".toList)).or
        ((readWordScheme? (schemeCall s ++ ");".toList)).or
          (readBareScheme? (schemeCall s ++ ");".toList))) := by
    rw [readScheme?, toList_schemeExpr, List.append_assoc, skip_append]
    rfl
  rw [hcall]
  -- each kind of scheme is recognized by the first word of its call
  cases s with
  | apiKey name place description =>
      rw [readKeyScheme?_apiKey]
      rfl
  | http word format description =>
      rw [readKeyScheme?_http, readWordScheme?_http]
      rfl
  | oauth2 flows description =>
      have hword : schemeCall (.oauth2 flows description)
          = "SecurityScheme::OAuth2".toList := rfl
      show _ = some Auth.Scheme.oauth2
      rw [hword]
      decide
  | openIdConnect url description =>
      have hword : schemeCall (.openIdConnect url description)
          = "SecurityScheme::OpenIdConnect".toList := rfl
      show _ = some Auth.Scheme.openIdConnect
      rw [hword]
      decide
  | mutualTls description =>
      have hword : schemeCall (.mutualTls description)
          = "SecurityScheme::MutualTls".toList := rfl
      show _ = some Auth.Scheme.mutualTls
      rw [hword]
      decide

/-- The line that enters a scheme gives its name and the scheme. -/
theorem entered?_line (name : String) (s : SecurityScheme) :
    entered? (.line ("schemes.insert(" ++ Definition.literal name ++ ".to_string(), "
      ++ schemeExpr s ++ ");")) = some (name, s.scheme) := by
  rw [entered?]
  simp only [String.toList_append, List.append_assoc, Definition.literal]
  rw [skip_append, Option.bind_eq_bind, Option.bind_some,
    Text.Quoted.read?_encode, Option.bind_eq_bind, Option.bind_some]
  dsimp only
  rw [skip_append, Option.bind_eq_bind, Option.bind_some, readScheme?_schemeExpr]
  rfl

/-- The schemes that are entered in the source are those of the document. -/
theorem schemesIn_steps (m : SecurityModule) :
    schemesIn m.steps = m.schemes.map fun e => (e.1, e.2.scheme) := by
  let lines : List Step := m.schemes.map fun e =>
    .line ("schemes.insert(" ++ Definition.literal e.1 ++ ".to_string(), " ++ schemeExpr e.2
      ++ ");")
  let block : List Step :=
    .line "let mut schemes = oasgen_runtime::security::SchemeTable::new();" :: lines
      ++ [.line "schemes"]
  have hentries : block.filterMap entered? = m.schemes.map fun e => (e.1, e.2.scheme) := by
    have hlines : lines.filterMap entered? = m.schemes.map fun e => (e.1, e.2.scheme) := by
      rw [List.filterMap_map, ← List.filterMap_eq_map]
      exact List.filterMap_congr fun e _ => entered?_line e.1 e.2
    rw [List.filterMap_append, List.filterMap_cons, hlines]
    exact List.append_nil _
  have hblock : ∀ step ∈ block, (!isLeave step) = true := by
    intro step hstep
    simp only [block, lines, List.mem_append, List.mem_cons, List.mem_map, List.not_mem_nil,
      or_false] at hstep
    rcases hstep with (rfl | ⟨e, -, rfl⟩) | rfl <;> rfl
  -- the function for the table is the first in the file
  obtain ⟨rest, hsteps⟩ : ∃ rest, m.steps = .line headerLine :: .blank
      :: .line "/// Declared security schemes, keyed by scheme name."
      :: .enter schemesOpening :: (block ++ .leave "\x7d" :: rest) := by
    refine ⟨.blank :: handlerSteps m.schemes ++ .blank :: authenticatorSteps m.schemes
      ++ .blank :: requirementSteps m.operations ++ .blank :: middlewareSteps, ?_⟩
    simp [steps, schemeSteps, schemesOpening, block, lines]
  have hfound : blockOf schemesOpening m.steps = block := by
    rw [hsteps]
    show blockOf schemesOpening (.enter schemesOpening :: (block ++ .leave "\x7d" :: rest)) = _
    rw [blockOf_enter, List.takeWhile_append_of_pos hblock]
    exact List.append_nil _
  rw [schemesIn, hfound, hentries]

end SecurityModule

namespace Petstore

open Calendar (Timestamp)
open Service (RouteKey)
open Source (Declared DeclaredField)

-- =========================================================== description

/-- A parameter of a query that is a number of a given format. -/
def limitParameter : Parameter where
  name := "limit"
  place := .query
  schema := some { types := ["integer"], format := some "int32" }

/-- A pointer to a component schema. -/
def schemaOf (name : String) : Schema :=
  .ofPointer ("#/components/schemas/" ++ name)

/-- A body in JSON of a schema. -/
def jsonOf (schema : Schema) : Content := [("application/json", { schema := some schema })]

/-- A body that there must be. -/
def bodyOfSchema (name : String) : Referable RequestBody :=
  .inline { required := true, content := jsonOf (schemaOf name) }

/-- Tells that the service is up. -/
def healthOperation : Operation where
  id := some "health"
  summary := some "Liveness probe."
  security := some []
  responses :=
    [("200", .inline
      { description := "The service is up."
        content := jsonOf
          { types := ["object"], required := ["status"]
            properties := [("status", .ofType "string")] } })]

/-- Lists pets. -/
def listOperation : Operation where
  id := some "listPets"
  summary := some "List pets, optionally filtered by status."
  parameters :=
    [.inline limitParameter,
     .inline { name := "status", place := .query, schema := some (schemaOf "pet-status") }]
  responses :=
    [("200", .inline
      { description := "A page of pets.", content := jsonOf (schemaOf "Pets") })]

/-- Adds a pet. -/
def createOperation : Operation where
  id := some "createPet"
  summary := some "Add a pet to the store."
  security := some [[("apiKey", [])], [("bearerAuth", ["pets:write"])]]
  body := some (bodyOfSchema "NewPet")
  responses :=
    [("201", .inline { description := "Created.", content := jsonOf (schemaOf "Pet") }),
     ("default", .inline { description := "Unexpected error." })]

/-- Fetches a pet. -/
def fetchOperation : Operation where
  summary := some "Fetch one pet."
  parameters := [.inline limitParameter]
  responses :=
    [("200", .inline { description := "The pet.", content := jsonOf (schemaOf "Pet") }),
     ("404", .inline { description := "No such pet." }),
     ("default", .inline { description := "Unexpected error." })]

/-- Takes a pet away. -/
def deleteOperation : Operation where
  id := some "deletePet"
  security := some [[("bearerAuth", ["pets:write"])]]
  responses :=
    [("204", .inline { description := "Deleted." }),
     ("404", .inline { description := "No such pet." })]

/-- Tells others that a pet was added. -/
def deliveryOperation : Operation where
  summary := some "A pet was added to the store."
  body := some (bodyOfSchema "Pet")
  responses := [("200", .inline { description := "Delivered." })]

/-- The schema of a pet in the store. -/
def petSchema : Schema where
  types := ["object"]
  description := some "A pet in the store."
  required := ["id", "name"]
  properties :=
    [("born", { types := ["string"], format := some "date" }),
     ("id", { types := ["integer"], format := some "int64" }),
     ("name", .ofType "string"),
     ("status", schemaOf "pet-status"),
     ("tag", { types := ["string", "null"] }),
     ("updatedAt", { types := ["string"], format := some "date-time" })]

/-- The schema of a pet that is to be added. -/
def newPetSchema : Schema where
  types := ["object"]
  required := ["name"]
  properties :=
    [("name", .ofType "string"), ("status", schemaOf "pet-status"), ("tag", .ofType "string")]

/-- What the service is described by. -/
def description : Document where
  openapi := "3.1.0"
  info :=
    { title := "Petstore", version := "1.0.0"
      description := some "A sample pet store used by the oasgen integration tests." }
  security := some [[("apiKey", [])]]
  paths := some
    [("/health", PathItem.withOperation {} .get healthOperation),
     ("/pets", (PathItem.withOperation {} .get listOperation).withOperation .post createOperation),
     ("/pets/\x7bpetId\x7d",
       (PathItem.withOperation
         { parameters :=
            [.inline
              { name := "petId", place := .path, required := true
                schema := some { types := ["integer"], format := some "int64" } }] }
         .get fetchOperation).withOperation .delete deleteOperation)]
  webhooks := [("newPet", PathItem.withOperation {} .post deliveryOperation)]
  components := some
    { securitySchemes :=
        [("apiKey", .apiKey "X-API-Key" .header none),
         ("bearerAuth", .http "bearer" none (some "Bearer token with pets scopes."))]
      schemas :=
        [("NewPet", newPetSchema), ("Pet", petSchema),
         ("Pets", { types := ["array"], items := some (schemaOf "Pet") }),
         ("pet-status",
          { types := ["string"], description := some "Adoption status."
            literals := [.str "available", .str "pending", .str "sold"] })] }

-- =============================================================== service

/-- The fields of a pet that is to be added, as they are declared. -/
def newPetFields : List DeclaredField :=
  [⟨"name", "name", "String"⟩, ⟨"status", "status", "Option<PetStatus>"⟩,
   ⟨"tag", "tag", "Option<String>"⟩]

/-- The fields of a pet, as they are declared. -/
def petFields : List DeclaredField :=
  [⟨"born", "born", "Option<chrono::NaiveDate>"⟩, ⟨"id", "id", "i64"⟩,
   ⟨"name", "name", "String"⟩, ⟨"status", "status", "Option<PetStatus>"⟩,
   ⟨"tag", "tag", "Option<String>"⟩,
   ⟨"updatedAt", "updated_at", "Option<chrono::DateTime<chrono::Utc>>"⟩]

/-- The types of the bodies, as they are declared. -/
def declaredTypes : List Declared :=
  [.struct "NewPet" newPetFields, .struct "Pet" petFields, .synonym "Pets" "Vec<Pet>",
   .enumeration "PetStatus" (Status.all.map Status.name)]

/-- How a struct with declared fields is read: those whose type is that of an optional
value need not be given. -/
def layoutOf (name : String) (fields : List DeclaredField) : Layout :=
  ⟨"struct " ++ name, fields.map (·.wire),
    (fields.filter fun f => (Source.namesIn f.type).head? != some "Option").map (·.wire)⟩

/-- Pets are read by the layouts of their declarations. -/
theorem layouts_declared :
    layoutOf "NewPet" newPetFields = NewPet.layout ∧ layoutOf "Pet" petFields = Pet.layout := by
  simp only [layoutOf, NewPet.layout, Pet.layout, Layout.mk.injEq]
  decide +kernel

/-- The members of a body with a pet stand in the order of the fields. -/
theorem members_declared (p : Pet) :
    ((Pet.formMembers p).map (·.1)).Sublist (petFields.map (·.wire)) := by
  have hfields : petFields.map (·.wire) = Pet.layout.fields :=
    congrArg Layout.fields layouts_declared.2
  rw [hfields, Pet.keys_formMembers]
  exact p.wireNames_sublist

/-- What an operation reads: parameters with their names, places and types, and the
type of a body. -/
structure Arguments where
  operation : String
  parameters : List (String × ParameterPlace × String) := []
  body : Option String := none
deriving DecidableEq

/-- What the operations of a server read. -/
def argumentsOf (m : ServerModule) : List Arguments :=
  m.plans.map fun p =>
    { operation := p.name
      parameters := p.parameters.map fun f => (f.wire, f.place, f.type.text)
      body := p.body.map fun b => b.1.text }

/-- What the operations of the service read. -/
def arguments : List Arguments :=
  [{ operation := "Health" },
   { operation := "ListPets"
     parameters := [("limit", .query, "i32"), ("status", .query, "PetStatus")] },
   { operation := "CreatePet", body := some "NewPet" },
   { operation := "GetPets", parameters := [("petId", .path, "i64"), ("limit", .query, "i32")] },
   { operation := "DeletePet", parameters := [("petId", .path, "i64")] }]

deriving instance DecidableEq for Requirement

/-- The tables of the service are those of the document. -/
theorem tables_described :
    (description.canonical.1.operations.map fun e =>
        (key e.verb e.path, description.canonical.1.requirementOf e.operation)) = requirements
      ∧ (description.canonical.1.securitySchemes.map fun e => (e.1, e.2.scheme)) = schemes := by
  decide +kernel

/-- The types and the arguments of the service are those of the document. -/
theorem plans_described : description.canonical.1.catalog.toOption.any (fun c => decide
    ((TypesModule.definitions c).map Definition.declared = declaredTypes
      ∧ (ServerModule.ofCatalog c).toOption.map argumentsOf = some arguments)) = true := by
  decide +kernel

/-- What is read back of a registration is the key of a route. -/
def Registers (registration : Verb × String) (k : RouteKey) : Prop :=
  ∃ path, registration.2 = Definition.literal path ∧ k = key registration.1 path

/-- What is read back of an insertion is an entry of the requirements. -/
def Enters (i : SecurityModule.Insertion) (e : RouteKey × Requirement) : Prop :=
  ∃ path, i.path = Definition.literal path ∧ e = (key i.verb path, i.requirement)

/-- The service is what is generated from its description. The server registers its
routes, the security enters what they ask for and the schemes, and the types are
declared by which bodies are written and read; the operations read the arguments that
the service reads, and one more limit that it does not ask for. -/
theorem service_described (now : Timestamp) : ∃ p c m v, description.prepare = .ok p
    ∧ p.document.catalog = .ok c ∧ ServerModule.ofCatalog c = .ok m
    ∧ SecurityModule.ofDocument? p.document = some v
    ∧ List.Forall₂ Registers (ServerModule.registrations m.steps) ((routes now).map (·.key))
    ∧ List.Forall₂ Enters (SecurityModule.insertions v.steps) requirements
    ∧ SecurityModule.schemesIn v.steps = schemes
    ∧ Source.declaredIn (TypesModule.steps c) = declaredTypes
    ∧ argumentsOf m = arguments
    ∧ ∀ s : Settings, ∃ artifacts, s.generate p.document = .ok artifacts
        ∧ ⟨"server", Source.text m.steps⟩ ∈ artifacts
        ∧ (s.emitSecurity = true → ⟨"security", Source.text v.steps⟩ ∈ artifacts)
        ∧ ∀ a ∈ artifacts, a.module = "types" →
            a.contents = Source.text (TypesModule.steps c) := by
  obtain ⟨p, hp, hdocument, hfinite⟩ :=
    Document.prepared_of_shapes (d := description) 3 (by decide +kernel) (by decide +kernel)
  have hd := Document.checked_of_prepare hp
  obtain ⟨c, hc, hsame, -⟩ := Document.catalog_ok hfinite
  obtain ⟨c', m, w, hc', hm, hw, hwrites⟩ := Settings.planned hd hfinite
  cases Except.ok.inj (hc'.symm.trans hc)
  -- what the plans are is evaluated on the description; what is written of them follows
  -- for any plan
  obtain ⟨hrequirements, hschemes⟩ := tables_described
  have hplans := plans_described
  rw [← hdocument] at hrequirements hschemes hplans
  rw [hc] at hplans
  obtain ⟨hdeclared, harguments⟩ := of_decide_eq_true hplans
  rw [hm] at harguments
  obtain ⟨v, hv, hv'⟩ : ∃ v, SecurityModule.ofDocument? p.document = some v
      ∧ v = ⟨p.document.securitySchemes, p.document.operations.map fun e =>
          ⟨e.verb, e.path, p.document.requirementOf e.operation⟩⟩ := by
    rw [SecurityModule.ofDocument?, if_neg]
    · exact ⟨_, rfl, rfl⟩
    · intro hempty
      rw [List.isEmpty_iff.1 hempty] at hschemes
      cases hschemes
  refine ⟨p, c, m, v, hp, hc, hm, hv, ?_, ?_, ?_, ?_, Option.some.inj harguments, fun s => ?_⟩
  · have hroutes : (routes now).map (·.key) = requirements.map (·.1) := rfl
    rw [ServerModule.registrations_ofCatalog hm, hsame, hroutes, ← hrequirements, List.map_map,
      List.forall₂_map_left_iff, List.forall₂_map_right_iff, List.forall₂_same]
    exact fun e _ => ⟨e.path, rfl, rfl⟩
  · rw [SecurityModule.insertions_steps, hv', ← hrequirements, List.map_map,
      List.forall₂_map_left_iff, List.forall₂_map_right_iff, List.forall₂_same]
    exact fun e _ => ⟨e.path, rfl, rfl⟩
  · rw [SecurityModule.schemesIn_steps, hv', hschemes]
  · rw [TypesModule.declaredIn_steps (TypesModule.isName_entries hfinite hc), hdeclared]
  · obtain ⟨artifacts, hrun, hall⟩ := hwrites s
    obtain ⟨artifacts', hrun', hserver, hsecurity⟩ := Settings.mem_generate hc hm hw hv s
    cases Except.ok.inj (hrun'.symm.trans hrun)
    exact ⟨_, hrun, hserver, hsecurity, fun a ha => (hall a ha).1⟩

end Petstore

end ApiForge
