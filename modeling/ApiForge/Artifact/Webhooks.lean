import ApiForge.Artifact.Operation
/-!
The webhooks of a document: a type for each payload, and a sender with one method
for each delivery. A webhook with several verbs has one delivery for each verb.
There is no such artifact when no webhook is declared.
-/

namespace ApiForge

open Source (Step)

/-- A webhook under one verb. -/
structure Delivery where
  verb : Verb
  /-- The name from which the sender's method and the payload's type are made. -/
  base : String
  /-- The name of the payload's type, and whether a payload must be sent. -/
  payload : Option (String × Bool)
  summary : Option String
  /-- The definitions of the payload's type and of what it hoists; none if its
  name is already defined. -/
  definitions : List Definition

namespace Delivery

/-- The method that sends the webhook. -/
def sendMethod (d : Delivery) : String :=
  "send_" ++ Identifier.withoutRawMark (Identifier.fieldName d.base)

end Delivery

/-- The webhooks of a document. -/
structure WebhookModule where
  deliveries : List Delivery

namespace WebhookModule

/-- The name of a delivery; `several` says that the webhook has several verbs. -/
def baseName (name : String) (verb : Verb) (several : Bool) : String :=
  Identifier.typeName (if several then verb.key ++ " " ++ name else name) "Webhook"

/-- Plans the payload of a delivery: its type's name, and the definitions. -/
def planPayload (c : Catalog) (webhook base : String) :
    Option (Referable RequestBody) → Planning (Option (String × Bool) × List Definition)
  | none => return (none, [])
  | some entry => do
    let context := "webhook " ++ webhook ++ " request body"
    let body ← Planning.target context c.document.resolveRequestBody entry
    match body.content.json? with
    | none => return (none, [])
    | some m =>
      let shape ← Planning.mediaShape c m
      let name := base ++ "Payload"
      let description := "Payload of the \x60" ++ webhook ++ "\x60 webhook."
      let definitions ← Planning.ofHoist do
        if ← Hoist.claim name then
          let d ← Definition.ofShape c name (some description) shape
          return d :: (← Definition.drain c)
        else return []
      return (some (name, body.required), definitions)

/-- Plans the deliveries of one webhook. -/
def planWebhook (c : Catalog) (name : String) (several : Bool) :
    List (Verb × Operation) → Planning (List Delivery)
  | [] => return []
  | (verb, o) :: rest => do
    let base := baseName name verb several
    let (payload, definitions) ← planPayload c name base o.body
    let delivery : Delivery := ⟨verb, base, payload, o.summary.or o.description, definitions⟩
    return delivery :: (← planWebhook c name several rest)

/-- Plans the deliveries of webhooks in name order. -/
def planWebhooks (c : Catalog) : Table PathItem → Planning (List Delivery)
  | [] => return []
  | (name, item) :: rest => do
    let deliveries ← planWebhook c name (1 < item.operations.length) item.operations
    return deliveries ++ (← planWebhooks c rest)

/-- The webhooks of a document, nothing when it declares none. -/
def ofCatalog? (c : Catalog) : Except PlanError (Option WebhookModule) :=
  if c.document.webhooks.isEmpty then .ok none
  else do
    let (deliveries, _) ← (planWebhooks c c.document.webhooks).run {}
    return some ⟨deliveries⟩

-- ============================================================== source

/-- The method that sends a delivery. -/
def methodSteps (d : Delivery) : List Step :=
  let method := "oasgen_runtime::http::Method::" ++ d.verb.name
  let head := "pub async fn " ++ d.sendMethod ++ "(&self, url: &str"
  let tail := ") -> Result<u16, oasgen_runtime::WebhookError> \x7b"
  List.flatten
   [[.blank],
    match d.summary with
      | some text => [.doc (some text), .line "///"]
      | none => [],
    [.line ("/// Sends a \x60" ++ d.verb.name
      ++ "\x60 to \x60url\x60 and returns the response status.")],
    match d.payload with
      | some (type, true) =>
        [.enter (head ++ ", payload: &" ++ type ++ tail),
         .line ("self.client.send(" ++ method ++ ", url, Some(payload)).await")]
      | some (type, false) =>
        [.enter (head ++ ", payload: Option<&" ++ type ++ ">" ++ tail),
         .line ("self.client.send(" ++ method ++ ", url, payload).await")]
      | none =>
        [.enter (head ++ tail),
         .line ("self.client.send::<()>(" ++ method ++ ", url, None).await")],
    [.leave "\x7d"]]

/-- The sender. -/
def senderSteps (ds : List Delivery) : List Step :=
  List.flatten
   [[.line "/// Delivers webhook payloads as JSON.",
     .line "#[derive(Debug, Clone, Default)]",
     .enter "pub struct WebhookSender \x7b",
     .line "client: oasgen_runtime::WebhookClient,",
     .leave "\x7d",
     .blank,
     .enter "impl WebhookSender \x7b",
     .enter "pub fn new() -> Self \x7b",
     .line "Self::default()",
     .leave "\x7d",
     .blank,
     .enter "pub fn with_client(client: oasgen_runtime::WebhookClient) -> Self \x7b",
     .line "Self \x7b client \x7d",
     .leave "\x7d"],
    ds.flatMap methodSteps,
    [.leave "\x7d"]]

/-- The source of the webhooks. -/
def steps (m : WebhookModule) : List Step :=
  List.flatten
   [[.line headerLine, .blank, .line "use super::types::*;"],
    m.deliveries.flatMap fun d => Definition.listSteps d.definitions,
    .blank :: senderSteps m.deliveries]

end WebhookModule

end ApiForge
