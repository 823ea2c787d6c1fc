import ApiForge.Artifact.Definition
import ApiForge.Artifact.Requirement
/-!
The security of a document: its declared schemes, the requirement of every
operation, and a handler with one method for each scheme. There is no such
artifact when no scheme is declared.
-/

namespace ApiForge

open Source (Step)
open Definition (literal)

/-- The requirement of an operation, by its verb and path. -/
structure SecuredOperation where
  verb : Verb
  path : String
  requirement : Requirement

/-- The security of a document. -/
structure SecurityModule where
  schemes : Table SecurityScheme
  operations : List SecuredOperation

namespace SecurityModule

/-- The security of a document, nothing when it declares no scheme. -/
def ofDocument? (d : Document) : Option SecurityModule :=
  if d.securitySchemes.isEmpty then none
  else
    some ⟨d.securitySchemes, d.operations.map fun e =>
      ⟨e.verb, e.path, d.requirementOf e.operation⟩⟩

-- ============================================================ source

/-- The name without the underscores at its end. -/
def dropUnderscores (name : String) : String :=
  String.ofList (name.toList.reverse.dropWhile (· == '_')).reverse

/-- The handler method of scheme number `i`. -/
def methodName (scheme : String) (i : Nat) : String :=
  let name := Identifier.fieldName scheme
  if name.isEmpty then "authenticate_scheme" ++ toString i
  else "authenticate_" ++ dropUnderscores (Identifier.withoutRawMark name)

/-- Where a key is carried, as a constant of the source. -/
def placeConstant : KeyPlace → String
  | .header => "Header"
  | .query => "Query"
  | .cookie => "Cookie"

/-- A scheme as an expression. -/
def schemeExpr (s : SecurityScheme) : String :=
  let home := "oasgen_runtime::security::"
  match s with
  | .apiKey name place _ =>
    home ++ "SecurityScheme::api_key(" ++ literal name ++ ", " ++ home ++ "ApiKeyLocation::"
      ++ placeConstant place ++ ")"
  | .http scheme _ _ => home ++ "SecurityScheme::http(" ++ literal scheme ++ ")"
  | .oauth2 _ _ => home ++ "SecurityScheme::OAuth2"
  | .openIdConnect _ _ => home ++ "SecurityScheme::OpenIdConnect"
  | .mutualTls _ => home ++ "SecurityScheme::MutualTls"

/-- A clause as an expression. -/
def clauseExpr (c : Clause) : String :=
  let entry (e : String × List String) :=
    "(" ++ literal e.1 ++ ", vec![" ++ ", ".intercalate (e.2.map literal) ++ "])"
  "oasgen_runtime::security::clause(vec![" ++ ", ".intercalate (c.map entry) ++ "])"

/-- A requirement as an expression. -/
def requirementExpr : Requirement → String
  | .anonymous => "oasgen_runtime::security::Requirement::Anonymous"
  | .clauses cs =>
    "oasgen_runtime::security::Requirement::Clauses(vec!["
      ++ ", ".intercalate (cs.map clauseExpr) ++ "])"

/-- The table of schemes. -/
def schemeSteps (schemes : Table SecurityScheme) : List Step :=
  List.flatten
   [[.line "/// Declared security schemes, keyed by scheme name.",
     .enter "pub fn schemes() -> oasgen_runtime::security::SchemeTable \x7b",
     .line "let mut schemes = oasgen_runtime::security::SchemeTable::new();"],
    schemes.map fun (name, s) =>
      .line ("schemes.insert(" ++ literal name ++ ".to_string(), " ++ schemeExpr s ++ ");"),
    [.line "schemes", .leave "\x7d"]]

/-- The handler method of a scheme. -/
def methodSteps (i : Nat) (name : String) (s : SecurityScheme) : List Step :=
  List.flatten
   [if i = 0 then [] else [.blank],
    [match s.description with
      | some d => .doc (some d)
      | none => .line ("/// Scheme \x60" ++ Text.singleLine name ++ "\x60."),
     .enter ("fn " ++ methodName name i ++ "("),
     .line "&self,",
     .line "credential: oasgen_runtime::security::Credential,",
     .line "scopes: &[String],",
     .leave (") -> impl std::future::Future<Output = Result<oasgen_runtime::security::Principal, "
       ++ "oasgen_runtime::security::AuthError>> + Send;")]]

/-- The trait that verifies credentials. -/
def handlerSteps (schemes : Table SecurityScheme) : List Step :=
  List.flatten
   [[.line "/// Verifies the credentials of each declared scheme.",
     .enter "pub trait SecurityHandler: Send + Sync + 'static \x7b"],
    schemes.zipIdx.flatMap fun ((name, s), i) => methodSteps i name s,
    [.leave "\x7d"]]

/-- The authenticator that chooses a handler method by the name of the scheme. -/
def authenticatorSteps (schemes : Table SecurityScheme) : List Step :=
  List.flatten
   [[.line "/// Dispatches runtime authentication to a [`SecurityHandler`] by scheme name.",
     .line "pub struct SchemeAuthenticator<H>(pub H);",
     .blank,
     .enter ("impl<H: SecurityHandler> oasgen_runtime::security::Authenticator "
       ++ "for SchemeAuthenticator<H> \x7b"),
     .enter "fn authenticate<'a>(",
     .line "&'a self,",
     .line "scheme: &'a str,",
     .line "credential: oasgen_runtime::security::Credential,",
     .line "scopes: &'a [String],",
     .turn (") -> oasgen_runtime::BoxFuture<'a, Result<oasgen_runtime::security::Principal, "
       ++ "oasgen_runtime::security::AuthError>> \x7b"),
     .enter "match scheme \x7b"],
    schemes.zipIdx.map fun ((name, _), i) =>
      .line (literal name ++ " => Box::pin(self.0." ++ methodName name i
        ++ "(credential, scopes)),"),
    [.enter "other => \x7b",
     .line "let other = other.to_string();",
     .line ("Box::pin(async move \x7b Err(oasgen_runtime::security::AuthError::"
       ++ "UnknownScheme(other)) \x7d)"),
     .leave "\x7d", .leave "\x7d", .leave "\x7d", .leave "\x7d"]]

/-- The entry of an operation in the table of requirements. -/
def operationSteps (o : SecuredOperation) : List Step :=
  [.enter "table.insert(",
   .line ("(oasgen_runtime::http::Method::" ++ o.verb.name ++ ", " ++ literal o.path
     ++ ".to_string()),"),
   .line (requirementExpr o.requirement ++ ","),
   .leave ");"]

/-- The table of requirements. -/
def requirementSteps (os : List SecuredOperation) : List Step :=
  List.flatten
   [[.line "/// Effective requirement of every operation, keyed by method and path",
     .line "/// pattern. Operations without any declared security require a clause",
     .line "/// that can never hold, so they are rejected.",
     .enter "pub fn operation_security() -> oasgen_runtime::security::RequirementTable \x7b",
     .line "let mut table = oasgen_runtime::security::RequirementTable::new();"],
    os.flatMap operationSteps,
    [.line "table", .leave "\x7d"]]

/-- The middleware that enforces the requirements. -/
def middlewareSteps : List Step :=
  [.line "/// Middleware enforcing [`operation_security`] with `handler`.",
   .line "///",
   .line "/// With `None` every request passes through unauthenticated.",
   .enter ("pub fn middleware<H: SecurityHandler>(handler: Option<H>) -> "
     ++ "oasgen_runtime::Middleware \x7b"),
   .enter "let authenticator = handler.map(|handler| \x7b",
   .line "std::sync::Arc::new(SchemeAuthenticator(handler))",
   .line "    as std::sync::Arc<dyn oasgen_runtime::security::Authenticator>",
   .leave "\x7d);",
   .line ("oasgen_runtime::security::security_middleware(schemes(), operation_security(), "
     ++ "authenticator)"),
   .leave "\x7d"]

/-- The source of the security of a document. -/
def steps (m : SecurityModule) : List Step :=
  List.flatten
   [[.line headerLine],
    .blank :: schemeSteps m.schemes,
    .blank :: handlerSteps m.schemes,
    .blank :: authenticatorSteps m.schemes,
    .blank :: requirementSteps m.operations,
    .blank :: middlewareSteps]

end SecurityModule

end ApiForge
