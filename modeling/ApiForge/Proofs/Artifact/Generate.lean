import ApiForge.Proofs.Artifact.Index
import ApiForge.Proofs.Artifact.Planned
/-!
Validation is sufficient for generation.

A prepared document has had its references checked. If mapping ends on the
schemas that are mapped, no step of generation can fail, under any settings:
the catalog has every shape, and the plans of the server and of the webhooks
resolve checked references only. What is left to say is which artifacts there
are, and that the index declares those before it (`generate_ok`).
-/

namespace ApiForge

namespace Document

/-- A document is prepared when its check passes. -/
theorem prepared_of_toBool {d : Document} (hok : d.prepare.toBool = true) :
    ∃ p, d.prepare = .ok p ∧ p.document = d.canonical.1 := by
  cases h : d.prepare with
  | error e => rw [h] at hok; cases hok
  | ok p => exact ⟨p, rfl, document_of_prepare h⟩

/-- A document is prepared, and mapping ends on it, when its check passes and
some bound is enough to map the schemas at which mapping begins. -/
theorem prepared_of_shapes {d : Document} (bound : Nat)
    (hok : d.prepare.toBool = true)
    (hshapes : d.canonical.1.roots.all (fun s =>
      (d.canonical.1.shapeWithin? bound s).isSome) = true) :
    ∃ p, d.prepare = .ok p ∧ p.document = d.canonical.1
      ∧ p.document.MapsFinitely := by
  obtain ⟨p, hp, hdocument⟩ := prepared_of_toBool hok
  refine ⟨p, hp, hdocument, ?_⟩
  rw [hdocument]
  exact mapsFinitely_of_roots (List.all_eq_true.1 hshapes)

end Document

namespace Settings

variable {d : Document}

/-- The artifacts of a document that has been planned, but for the index. -/
def sources (s : Settings) (d : Document) (c : Catalog) (m : ServerModule)
    (w : Option WebhookModule) : List Artifact :=
  [⟨"types", c.typesSource⟩, ⟨"server", Source.text m.steps⟩]
    ++ ((if s.emitSecurity then d.securitySource? else none).map
        fun source => ⟨"security", source⟩).toList
    ++ ((if s.emitWebhooks then w else none).map
        fun m => ⟨"webhooks", Source.text m.steps⟩).toList

/-- Generation succeeds once everything has been planned. -/
theorem generate_eq {c : Catalog} {m : ServerModule}
    {w : Option WebhookModule} (hc : d.catalog = .ok c)
    (hm : ServerModule.ofCatalog c = .ok m)
    (hw : WebhookModule.ofCatalog? c = .ok w) (s : Settings) :
    s.generate d = .ok (s.sources d c m w
      ++ [⟨"mod", d.indexSource s.package
            ((s.sources d c m w).map (·.module))⟩]) := by
  simp only [generate, hc, Catalog.serverSource, hm, Catalog.webhooksSource?,
    hw, bind, Except.bind, pure, Except.pure]
  cases hs : s.emitWebhooks with
  | false => simp [sources, hs]
  | true => cases w <;> simp [sources, hs]

/-- The modules before the index: types and server, then security and webhooks
where the settings ask for them and the document has any. -/
theorem sources_modules {c : Catalog} {w : Option WebhookModule}
    (hw : w.isSome = !d.webhooks.isEmpty) (s : Settings) (m : ServerModule) :
    (s.sources d c m w).map (·.module)
      = ["types", "server"]
        ++ (if s.emitSecurity && !d.securitySchemes.isEmpty then ["security"]
            else [])
        ++ (if s.emitWebhooks && !d.webhooks.isEmpty then ["webhooks"]
            else []) := by
  have hsecurity : d.securitySource?.isSome = !d.securitySchemes.isEmpty := by
    rw [Document.securitySource?, SecurityModule.ofDocument?]
    cases d.securitySchemes.isEmpty <;> rfl
  rw [← hw, ← hsecurity, sources]
  cases s.emitSecurity <;> cases s.emitWebhooks <;>
    cases d.securitySource? <;> cases w <;> rfl

/-- The names of modules stand on one line. -/
theorem oneLine_of_mem_modules {security webhooks : Bool} {name : String}
    (h : name ∈ ["types", "server"]
      ++ (if security then ["security"] else [])
      ++ (if webhooks then ["webhooks"] else [])) : Text.OneLine name := by
  revert name
  cases security <;> cases webhooks <;> decide

-- ========================================================= main result

/-- Generation does not fail on a prepared document on which mapping ends,
whatever the settings are. It gives the types, the server, the security if the
settings ask for it and a scheme is declared, the webhooks if they ask for
them and a webhook is declared, and the index, which declares the artifacts
before it in their order. -/
theorem generate_ok {d : Document} {p : Prepared} (h : d.prepare = .ok p)
    (hf : p.document.MapsFinitely) (s : Settings) :
    ∃ artifacts index, s.generate p.document = .ok (artifacts ++ [index])
      ∧ artifacts.map (·.module)
        = ["types", "server"]
          ++ (if s.emitSecurity && !p.document.securitySchemes.isEmpty
              then ["security"] else [])
          ++ (if s.emitWebhooks && !p.document.webhooks.isEmpty
              then ["webhooks"] else [])
      ∧ index.module = "mod"
      ∧ IndexModule.declaredModules index.contents
        = artifacts.map (·.module) := by
  obtain ⟨c, hc, hdocument, -⟩ := Document.catalog_ok hf
  rw [← hdocument] at hf
  -- the server and the webhooks are planned, since references resolve and shapes exist
  have hd := Document.checked_of_prepare h
  rw [← hdocument] at hd
  obtain ⟨m, _, hm, -⟩ := ServerModule.ofCatalog_ok hd hf
  obtain ⟨w, hw, hsome, -⟩ := WebhookModule.ofCatalog?_ok hd hf
  rw [hdocument] at hsome
  -- the index is then read back line by line
  have hmodules := sources_modules (c := c) hsome s m
  have hone : ∀ name ∈ (s.sources p.document c m w).map (·.module),
      Text.OneLine name := by
    rw [hmodules]
    exact fun name hname => oneLine_of_mem_modules hname
  refine ⟨_, ⟨"mod", _⟩, generate_eq hc hm hw s, hmodules, rfl, ?_⟩
  rw [IndexModule.declaredModules_indexSource _ _ hone]

-- a kennel: a parameter behind two pointers, a webhook and a scheme

/-- A schema that points to the one component schema of the kennel. -/
def petPointer : Schema := .ofPointer "#/components/schemas/Pet"

/-- The schema of a pet, its kind one of two and its parent a pet. -/
def petSchema : Schema where
  types := ["object"]
  properties :=
    [("kind", { types := ["string"], literals := [.str "cat", .str "dog"] }),
     ("parent", petPointer)]

/-- What the kennel shares: one parameter is an alias of the other. -/
def kennelComponents : Components where
  schemas := [("Pet", petSchema)]
  parameters :=
    [("limit", .pointer "#/components/parameters/size"),
     ("size", .inline
       { name := "size", place := .query, schema := some (.ofType "integer") })]
  securitySchemes := [("key", .apiKey "X-Key" .header none)]

/-- Lists pets, as many as a parameter says. -/
def listPets : Operation where
  parameters := [.pointer "#/components/parameters/limit"]
  responses := [("200", .inline
    { content := [("application/json",
        ⟨some { types := ["array"], items := some petPointer }⟩)] })]

/-- Tells of a new pet. -/
def petAdded : Operation where
  body := some (.inline { content := [("application/json", ⟨some petPointer⟩)] })

/-- A document with one path and one webhook. -/
def kennel : Document where
  openapi := "3.1.0"
  info := { title := "Kennel", version := "1" }
  paths := some [("/pets", PathItem.withOperation {} .get (some listPets))]
  webhooks := [("petAdded", PathItem.withOperation {} .post (some petAdded))]
  components := some kennelComponents

/-- The kennel is prepared, and mapping ends on it. -/
theorem kennel_prepared : ∃ p, kennel.prepare = .ok p
    ∧ p.document = kennel.canonical.1 ∧ p.document.MapsFinitely :=
  Document.prepared_of_shapes 3 (by decide +kernel) (by decide +kernel)

/-- All five artifacts are generated from the kennel under the default
settings. -/
theorem generate_ok_kennel : ∃ p artifacts index,
    kennel.prepare = .ok p
      ∧ ({} : Settings).generate p.document = .ok (artifacts ++ [index])
      ∧ artifacts.map (·.module) = ["types", "server", "security", "webhooks"]
      ∧ IndexModule.declaredModules index.contents
        = ["types", "server", "security", "webhooks"] := by
  obtain ⟨p, hp, hdocument, hfinite⟩ := kennel_prepared
  obtain ⟨artifacts, index, hrun, hmodules, -, hindex⟩ :=
    generate_ok hp hfinite {}
  have hsecurity : p.document.securitySchemes.isEmpty = false := by
    rw [hdocument]
    decide +kernel
  have hwebhooks : p.document.webhooks.isEmpty = false := by
    rw [hdocument]
    decide +kernel
  rw [hsecurity, hwebhooks] at hmodules
  refine ⟨p, artifacts, index, hp, hrun, hmodules, ?_⟩
  rw [hindex, hmodules]
  rfl

end Settings

end ApiForge
