import ApiForge.Artifact.LookUp
import ApiForge.Cli.Arguments
import ApiForge.Document.FileName
import ApiForge.Log.Record
/-!
The events of a run, and the log records that tell of them. The events of looking
things up follow from what is looked up and from what the resolver knows by then:
a pointer that it knows already makes no event.
-/

namespace ApiForge.Cli

open Log (FieldValue Level Record)

/-- An event of a run. -/
inductive Event where
  | started (command : Command)
  | loadStarted (path : String)
  | documentRead (path : String) (form : Document.Syntax) (octets : Nat)
  | documentLoaded (path openapi title : String)
  | schemasMadeCanonical (schemas : Nat)
  | documentMadeCanonical (schemas : Nat)
  | referenceResolved (pointer : String) (kind : EntryKind)
  | documentValidated (references pointers : Nat)
  | memberPassedOver (pointer : String)
  | schemaPassedOver (raw name : String)
  | artifactMade (module : String) (octets : Nat)
  | artifactWritten (path : String) (octets : Nat)
  | generationCompleted (input output : String) (artifacts : Nat)
  | generationFailed (input reason : String)
deriving DecidableEq, Repr

namespace Event

/-- The parts of the program that speak. -/
def pipeline : String := "oasgen_codegen::pipeline"

/-- A milestone of a run. -/
def milestone (level : Level) (name : String) (fields : List (String × FieldValue)) : Record :=
  { level, target := pipeline, fields := ("event", .quoted name) :: fields }

/-- The name of a syntax in log records. -/
def syntaxName : Document.Syntax → String
  | .yaml => "Yaml"
  | .json => "Json"

/-- The log record of an event. -/
def record : Event → Record
  | started command =>
    { level := .debug, target := "oasgen", message := some "oasgen starting",
      fields := [("version", .quoted generatorVersion), ("command", .plain command.text)] }
  | loadStarted path => milestone .info "load_started" [("path", .plain path)]
  | documentRead path form octets =>
    { level := .debug, target := "oasgen_spec::loader", message := some "read document",
      fields := [("path", .plain path), ("syntax", .plain (syntaxName form)),
        ("bytes", .number octets)] }
  | documentLoaded path openapi title =>
    milestone .info "document_loaded"
      [("path", .plain path), ("openapi", .plain openapi), ("title", .plain title)]
  | schemasMadeCanonical schemas =>
    { level := .debug, target := "oasgen_spec::normalize",
      message := some "normalized schema types", fields := [("schemas", .number schemas)] }
  | documentMadeCanonical schemas =>
    milestone .debug "document_normalized" [("schemas", .number schemas)]
  | referenceResolved pointer kind =>
    { level := .trace, target := "oasgen_spec::resolver", message := some "resolved reference",
      fields := [("pointer", .quoted pointer), ("kind", .plain kind.name)] }
  | documentValidated references pointers =>
    milestone .info "document_validated"
      [("references", .number references), ("cached", .number pointers)]
  | memberPassedOver pointer =>
    { level := .debug, target := "oasgen_codegen::mapper",
      message := some "allOf cycle, member skipped", fields := [("pointer", .quoted pointer)] }
  | schemaPassedOver raw name =>
    { level := .debug, target := "oasgen_codegen::emit::types",
      message := some "name already emitted, skipped",
      fields := [("schema", .plain raw), ("name", .plain name)] }
  | artifactMade module octets =>
    milestone .debug "artifact_emitted" [("artifact", .quoted module), ("bytes", .number octets)]
  | artifactWritten path octets =>
    milestone .info "artifact_written" [("path", .plain path), ("bytes", .number octets)]
  | generationCompleted input output artifacts =>
    milestone .info "generation_completed"
      [("input", .plain input), ("output", .plain output), ("artifacts", .number artifacts)]
  | generationFailed input reason =>
    milestone .error "generation_failed" [("input", .plain input), ("error", .plain reason)]

/-- What a resolver has learnt beyond what it knew before, as events. -/
def learnt (before after : Resolver) : List Event :=
  (after.take (after.length - before.length)).reverse.map fun (pointer, found) =>
    referenceResolved pointer found.component.kind

/-- The events of looking things up, one after the other. -/
def ofLookUps (d : Document) : List LookUp → Resolver → List Event
  | [], _ => []
  | .resolve pointer :: rest, known =>
    let (_, after) := Resolver.resolve d pointer known
    learnt known after ++ ofLookUps d rest after
  | .passOver pointer :: rest, known => memberPassedOver pointer :: ofLookUps d rest known
  | .passOverSchema raw name :: rest, known => schemaPassedOver raw name :: ofLookUps d rest known

end Event

-- =============================================================== loading

/-- Why a run fails. -/
inductive Failure where
  | settings (e : Settings.Error)
  | load (e : Document.LoadError)
  | prepare (e : PrepareError)
  | plan (e : PlanError)
  /-- The output folder cannot be created. -/
  | folder (path reason : String)
  /-- An artifact cannot be written. -/
  | artifact (path reason : String)
deriving DecidableEq, Repr

/-- The wording of a failure. -/
def Failure.message : Failure → String
  | settings e => e.message
  | load e => e.message
  | prepare e => e.message
  | plan e => e.message
  | folder path reason => "E1030: cannot create output directory " ++ path ++ ": " ++ reason
  | artifact path reason => "E1031: cannot write " ++ path ++ ": " ++ reason

/-- Something that comes about with events, the first of them first. -/
structure Told (α : Type) where
  events : List Event
  result : α

/-- Loads and prepares the document in a file that could be read. -/
def loadDocument (path : String) (octets : List UInt8) : Told (Except Failure Prepared) :=
  let form := Document.Syntax.ofPath path
  let read := Event.documentRead path form octets.length
  match Document.load form octets with
  | .error e => ⟨[read], .error (.load e)⟩
  | .ok d =>
    let p := d.preparation
    let events := [read, .documentLoaded path d.openapi d.info.title,
      .schemasMadeCanonical p.schemas, .documentMadeCanonical p.schemas]
      ++ Event.learnt [] p.known
    match p.references with
    | .error e => ⟨events, .error (.prepare e)⟩
    | .ok n =>
      ⟨events ++ [.documentValidated n p.known.size],
        .ok ⟨p.document, p.schemas, n, p.known.size⟩⟩

/-- Generates the artifacts of a document. -/
def generateArtifacts (s : Settings) (d : Document) : Told (Except Failure (List Artifact)) :=
  let lookUps := Event.ofLookUps d (s.lookUps d) []
  match s.generate d with
  | .error e => ⟨lookUps, .error (.plan e)⟩
  | .ok artifacts =>
    ⟨lookUps ++ artifacts.map fun a => .artifactMade a.module (Text.Utf8.size a.contents),
      .ok artifacts⟩

end ApiForge.Cli
