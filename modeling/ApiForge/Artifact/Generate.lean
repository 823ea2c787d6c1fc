import ApiForge.Artifact.Security
import ApiForge.Artifact.Server
import ApiForge.Artifact.Settings
import ApiForge.Artifact.Types
import ApiForge.Artifact.Webhooks
/-!
From a document to the artifacts of its source. `Document.prepare` makes a
document canonical and validates it; `Generator.generate` plans every artifact
and writes it: types, server, security and webhooks where there are any and the
settings ask for them, and the index last.
-/

namespace ApiForge

-- =============================================================== index

namespace IndexModule

open Source (Step)
open Definition (literal)

/-- The source of the index: it declares the modules and keeps the name of the
package and what the document says about itself. -/
def steps (info : Info) (package : String) (modules : List String) : List Step :=
  List.flatten
   [[.line headerLine,
     .line (Text.singleLine
       ("// Package " ++ package ++ ": " ++ info.title ++ " " ++ info.version)),
     .blank],
    modules.flatMap fun m =>
      [.line "#[allow(dead_code, unused_imports, non_upper_case_globals, clippy::all)]",
       .line ("pub mod " ++ m ++ ";")],
    [.blank,
     .line "/// Name of the generated package.",
     .line ("pub const PACKAGE: &str = " ++ literal package ++ ";"),
     .line "/// `info.title` of the source document.",
     .line ("pub const API_TITLE: &str = " ++ literal info.title ++ ";"),
     .line "/// `info.version` of the source document.",
     .line ("pub const API_VERSION: &str = " ++ literal info.version ++ ";")]]

end IndexModule

-- =========================================================== artifacts

/-- A generated source file. -/
structure Artifact where
  /-- The name of the module that it holds. -/
  module : String
  contents : String
deriving DecidableEq, Repr

/-- The name of the file. -/
def Artifact.fileName (a : Artifact) : String :=
  a.module ++ ".rs"

-- ========================================================= preparation

/-- Why a document is not fit for generation. -/
inductive PrepareError where
  | invalid (e : ValidationError)
  | reference (e : ReferenceError)
deriving DecidableEq, Repr

/-- The wording of a preparation error. -/
def PrepareError.message : PrepareError → String
  | invalid e => e.message
  | reference e => e.message

/-- What comes of preparing a document. -/
structure Preparation where
  /-- The document in canonical form. -/
  document : Document
  /-- How many schemas it holds. -/
  schemas : Nat
  /-- How many references were checked, unless something is wrong. -/
  references : Except PrepareError Nat
  /-- The references that were resolved, up to the first that could not be. -/
  known : Resolver

/-- Makes a document canonical and checks it: first the fields that it must have,
then its references. -/
def Document.preparation (d : Document) : Preparation :=
  let (d, schemas) := d.canonical
  match d.validate with
  | .error e => ⟨d, schemas, .error (.invalid e), []⟩
  | .ok () =>
    let (references, known) := Resolver.checkReferences d []
    ⟨d, schemas, references.mapError .reference, known⟩

/-- A document that is fit for generation. -/
structure Prepared where
  document : Document
  /-- How many schemas it holds. -/
  schemas : Nat
  /-- How many references were checked. -/
  references : Nat
  /-- How many different pointers they use. -/
  pointers : Nat

/-- Makes a document canonical and validates it. -/
def Document.prepare (d : Document) : Except PrepareError Prepared :=
  let p := d.preparation
  p.references.map fun n => ⟨p.document, p.schemas, n, p.known.size⟩

/-- What a document holds, in numbers. -/
structure Summary where
  title : String
  version : String
  openapi : String
  paths : Nat
  operations : Nat
  schemas : Nat
  securitySchemes : Nat
  webhooks : Nat
  references : Nat
deriving DecidableEq, Repr

/-- The summary of a document with a given number of references. -/
def Summary.ofDocument (d : Document) (references : Nat) : Summary where
  title := d.info.title
  version := d.info.version
  openapi := d.openapi
  paths := d.pathTable.length
  operations := d.operations.length
  schemas := d.schemas.length
  securitySchemes := d.securitySchemes.length
  webhooks := d.webhooks.length
  references := references

-- ========================================================== generation

/-- The catalog of a document that must have one. -/
def Document.catalog (d : Document) : Except PlanError Catalog :=
  match Catalog.ofDocument? d with
  | some c => .ok c
  | none => .error .endless

/-- The source of the types. -/
def Catalog.typesSource (c : Catalog) : String :=
  Source.text (TypesModule.steps c)

/-- The source of the server. -/
def Catalog.serverSource (c : Catalog) : Except PlanError String := do
  return Source.text (← ServerModule.ofCatalog c).steps

/-- The source of the webhooks, nothing when none is declared. -/
def Catalog.webhooksSource? (c : Catalog) : Except PlanError (Option String) := do
  return (← WebhookModule.ofCatalog? c).map fun m => Source.text m.steps

/-- The source of the security, nothing when no scheme is declared. -/
def Document.securitySource? (d : Document) : Option String :=
  (SecurityModule.ofDocument? d).map fun m => Source.text m.steps

/-- The source of the index. -/
def Document.indexSource (d : Document) (package : String) (modules : List String) : String :=
  Source.text (IndexModule.steps d.info package modules)

/-- Every artifact of a document, in order. -/
def Settings.generate (s : Settings) (d : Document) : Except PlanError (List Artifact) := do
  let c ← d.catalog
  let server ← c.serverSource
  let security := if s.emitSecurity then d.securitySource? else none
  let webhooks ← if s.emitWebhooks then c.webhooksSource? else pure none
  let parts : List Artifact :=
    [⟨"types", c.typesSource⟩, ⟨"server", server⟩]
      ++ (security.map fun source => ⟨"security", source⟩).toList
      ++ (webhooks.map fun source => ⟨"webhooks", source⟩).toList
  return parts ++ [⟨"mod", d.indexSource s.package (parts.map (·.module))⟩]

end ApiForge
