import ApiForge.Artifact.Operation
/-!
The server of a document: for each operation the types of its request and its
answers, a handler with one method for each, the router that calls the handler,
and the parsers that read requests.
-/

namespace ApiForge

open Source (Step)
open Definition (literal)

/-- An operation of the server with the shapes hoisted out of it. -/
structure ServerSection where
  plan : OperationPlan
  hoisted : List Definition

/-- The server of a document. -/
structure ServerModule where
  title : String
  sections : List ServerSection

namespace ServerModule

/-- The sections of operations in order. -/
def planSections (c : Catalog) : List Document.Endpoint → Planning (List ServerSection)
  | [] => return []
  | e :: rest => do
    let plan ← OperationPlan.ofEndpoint c e
    let hoisted ← Planning.ofHoist (Definition.drain c)
    return ⟨plan, hoisted⟩ :: (← planSections c rest)

/-- The server of a document. -/
def ofCatalog (c : Catalog) : Except PlanError ServerModule := do
  let (sections, _) ← (planSections c c.document.operations).run {}
  return ⟨c.document.info.title, sections⟩

/-- The plans of all operations. -/
def plans (m : ServerModule) : List OperationPlan :=
  m.sections.map (·.plan)

/-- The verbs and paths that the router serves, in the order of registration. -/
def routes (m : ServerModule) : List (Verb × String) :=
  m.plans.map fun p => (p.verb, p.path)

-- =============================================================== types

/-- The struct of a request. -/
def requestSteps (p : OperationPlan) : List Step :=
  let typed (ident : String) (required : Bool) (type : TypeExpr) : Step :=
    .line ("pub " ++ ident ++ ": " ++ (if required then type else .optional type).text ++ ",")
  List.flatten
   [[.line ("/// Parameters of " ++ p.label ++ "."),
     .line "#[derive(Debug, Clone, PartialEq)]",
     .enter ("pub struct " ++ p.name ++ "Request \x7b")],
    p.parameters.flatMap fun f => [.doc f.description, typed f.ident f.required f.type],
    match p.body with
      | some (type, required) => [typed "body" required type]
      | none => [],
    [.leave "\x7d"]]

/-- The enumeration of the answers, with the status and the body of each. -/
def responseSteps (p : OperationPlan) : List Step :=
  let name := p.name ++ "Response"
  let subject := if p.variants.isEmpty then "*self" else "self"
  List.flatten
   [[.line ("/// Responses of " ++ p.label ++ "."),
     .line "#[derive(Debug, Clone, PartialEq)]",
     .enter ("pub enum " ++ name ++ " \x7b")],
    p.variants.flatMap fun v =>
      [.doc (some v.description),
       .line (match v.body with
        | some type => v.name ++ "(" ++ type.text ++ "),"
        | none => v.name ++ ",")],
    [.leave "\x7d",
     .blank,
     .enter ("impl " ++ name ++ " \x7b"),
     .enter "pub fn status(&self) -> u16 \x7b",
     .enter ("match " ++ subject ++ " \x7b")],
    p.variants.map fun v =>
      .line (name ++ "::" ++ v.name ++ (if v.body.isSome then "(_)" else "") ++ " => "
        ++ toString v.status ++ ","),
    [.leave "\x7d",
     .leave "\x7d",
     .blank,
     .line "/// The JSON body, or `None` when the variant carries none.",
     .enter "pub fn body(&self) -> Result<Option<Vec<u8>>, serde_json::Error> \x7b",
     .enter ("match " ++ subject ++ " \x7b")],
    p.variants.map fun v =>
      .line (name ++ "::" ++ v.name ++
        (if v.body.isSome then "(body) => serde_json::to_vec(body).map(Some),"
         else " => Ok(None),")),
    [.leave "\x7d", .leave "\x7d", .leave "\x7d"]]

-- ============================================================= handler

/-- The handler method of an operation; `first` says that none stands before it. -/
def methodSteps (first : Bool) (p : OperationPlan) : List Step :=
  List.flatten
   [if first then [] else [.blank],
    [match p.summary.or p.description with
      | some text => .doc (some text)
      | none => .line ("/// " ++ p.label),
     .enter ("fn " ++ p.handlerMethod ++ "("),
     .line "&self,",
     .line ("request: " ++ p.name ++ "Request,"),
     .leave (") -> impl std::future::Future<Output = Result<" ++ p.name
       ++ "Response, oasgen_runtime::HandlerError>> + Send;")]]

/-- The handler trait. -/
def handlerSteps (m : ServerModule) : List Step :=
  let title := Text.singleLine m.title
  List.flatten
   [[.line (if title.isEmpty then "/// Operation handlers."
      else "/// Operation handlers for " ++ title ++ "."),
     .enter "pub trait Handler: Send + Sync + 'static \x7b"],
    m.plans.zipIdx.flatMap fun (p, i) => methodSteps (i == 0) p,
    [.leave "\x7d"]]

-- ============================================================== router

/-- The function that reads the requests of an operation. -/
def parserName (p : OperationPlan) : String :=
  "parse_" ++ Identifier.withoutRawMark p.handlerMethod

/-- The registration of an operation. -/
def routeSteps (p : OperationPlan) : List Step :=
  [.enter "\x7b",
   .line "let handler = std::sync::Arc::clone(&handler);",
   .enter ("router." ++ p.verb.key ++ "("),
   .line (literal p.path ++ ","),
   .enter "oasgen_runtime::handler(move |request: oasgen_runtime::Request| \x7b",
   .line "let handler = std::sync::Arc::clone(&handler);",
   .enter "async move \x7b",
   .enter ("let parsed = match " ++ parserName p ++ "(&request) \x7b"),
   .line "Ok(parsed) => parsed,",
   .line "Err(e) => return e.into_response(),",
   .leave "\x7d;",
   .enter ("match handler." ++ p.handlerMethod ++ "(parsed).await \x7b"),
   .enter "Ok(response) => match response.body() \x7b",
   .line "Ok(body) => oasgen_runtime::respond(response.status(), body),",
   .line "Err(e) => oasgen_runtime::Problem::internal(e).into_response(),",
   .leave "\x7d,",
   .line "Err(e) => oasgen_runtime::Problem::internal(e).into_response(),",
   .leave "\x7d",
   .leave "\x7d",
   .leave "\x7d),",
   .leave ");",
   .leave "\x7d"]

/-- The router. -/
def routerSteps (m : ServerModule) : List Step :=
  List.flatten
   [[.line "/// Register every operation on a new router.",
     .line "///",
     .line "/// Parameter errors are answered with 400, handler errors with 500.",
     .enter "pub fn router<H: Handler>(handler: std::sync::Arc<H>) -> oasgen_runtime::Router \x7b",
     .line "let mut router = oasgen_runtime::Router::new();"],
    m.plans.flatMap routeSteps,
    if m.plans.isEmpty then [.line "let _ = handler;"] else [],
    [.line "router", .leave "\x7d"]]

-- ============================================================= parsers

/-- How a request field is read. -/
def readExpr (f : RequestField) : String :=
  let home := "oasgen_runtime::params::"
  match f.place, f.required with
  | .path, _ => home ++ "required_path(request, " ++ literal f.wire ++ ")?"
  | _, true => home ++ "required_query(request, " ++ literal f.wire ++ ")?"
  | _, false => home ++ "optional_query(request, " ++ literal f.wire ++ ")"

/-- The function that reads the requests of an operation. -/
def parserSteps (p : OperationPlan) : List Step :=
  let argument := if p.parameters.isEmpty && p.body.isNone then "_request" else "request"
  List.flatten
   [[.enter ("fn " ++ parserName p ++ "(" ++ argument ++ ": &oasgen_runtime::Request) -> Result<"
       ++ p.name ++ "Request, oasgen_runtime::ParamError> \x7b"),
     .enter ("Ok(" ++ p.name ++ "Request \x7b")],
    p.parameters.map fun f => .line (f.ident ++ ": " ++ readExpr f ++ ","),
    match p.body with
      | some (_, true) => [.line "body: oasgen_runtime::params::json_body(request)?,"]
      | some (_, false) => [.line "body: oasgen_runtime::params::optional_json_body(request)?,"]
      | none => [],
    [.leave "\x7d)", .leave "\x7d"]]

-- ============================================================== source

/-- The source of a section. -/
def sectionSteps (s : ServerSection) : List Step :=
  List.flatten
   [.blank :: requestSteps s.plan, .blank :: responseSteps s.plan, Definition.listSteps s.hoisted]

/-- The source of the server. -/
def steps (m : ServerModule) : List Step :=
  List.flatten
   [[.line headerLine, .blank, .line "use super::types::*;"],
    m.sections.flatMap sectionSteps,
    .blank :: handlerSteps m,
    .blank :: routerSteps m,
    m.plans.flatMap fun p => .blank :: parserSteps p]

end ServerModule

end ApiForge
