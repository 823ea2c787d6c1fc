import ApiForge.Proofs.Artifact.Terse
import ApiForge.Proofs.Source.Code
/-!
Prose of a document stays in comments.

The descriptions and summaries of a document go into the source of every
artifact, and so does its title. They are written by steps that write comments,
so taking the prose out of a plan does not change the code of its source: there
is one lemma for each kind of plan. Two documents that are the same when their
prose is taken out have plans that are the same but for prose, so the same code
is generated from both (`prose_stays_in_comments`). The index also holds the
title and the version as literals; its code is the same where these are.
-/

namespace ApiForge

open Source (Step code code_append code_blank code_doc code_flatMap
  code_of_isComment codeLines)

variable {α β : Type}

/-- The name of a verb stands on one line. -/
theorem oneLine_verb (v : Verb) : Text.OneLine v.name := by
  cases v <;> decide

-- ============================================================= definitions

namespace Definition

/-- The code of a struct does not depend on what is said about its fields. -/
theorem code_structSteps (name : String) (fields : List StructField) :
    code (structSteps name (fields.map StructField.terse))
      = code (structSteps name fields) := by
  simp only [structSteps, List.flatten_cons, List.flatten_nil, code_append,
    code_flatMap, List.flatMap_map, code_doc]
  rfl

/-- Without its prose a definition has the same code. -/
theorem code_steps (d : Definition) : code d.terse.steps = code d.steps := by
  rw [steps, steps, code_doc, code_doc]
  match d with
  | ⟨name, _, .struct fields⟩ => exact code_structSteps name fields
  | ⟨_, _, .enumeration _⟩ => rfl
  | ⟨_, _, .alias _⟩ => rfl

theorem code_listSteps (ds : List Definition) :
    code (listSteps (ds.map terse)) = code (listSteps ds) := by
  rw [listSteps, listSteps, List.flatMap_map, code_flatMap, code_flatMap]
  refine List.flatMap_congr fun d _ => ?_
  rw [code_blank, code_blank, code_steps]

end Definition

/-- The code of the types, whatever the prose of the document. -/
theorem TypesModule.code_steps (c : Catalog) :
    code (steps c) = code (steps c.terse) := by
  have hdefinitions : code (Definition.listSteps (definitions c))
      = code (Definition.listSteps (definitions c.terse)) := by
    rw [← Definition.code_listSteps, definitions_terse,
      Definition.code_listSteps]
  have hheader : (Step.line headerLine).isComment = true := by decide
  rw [steps, steps, code_of_isComment _ hheader, code_of_isComment _ hheader,
    hdefinitions]

-- ================================================================== server

namespace ServerModule

theorem code_requestSteps (p : OperationPlan) :
    code (requestSteps p.terse) = code (requestSteps p) := by
  simp only [requestSteps, List.flatten_cons, List.flatten_nil, code_append,
    code_flatMap, List.flatMap_map, code_doc, OperationPlan.terse]
  rfl

/-- The code of a response does not depend on prose. -/
theorem code_responseSteps (p : OperationPlan) :
    code (responseSteps p.terse) = code (responseSteps p) := by
  simp only [responseSteps, List.flatten_cons, List.flatten_nil, code_append,
    code_flatMap, List.flatMap_map, code_doc, OperationPlan.terse,
    List.isEmpty_map, List.map_map]
  rfl

/-- The verb and the path of an operation are a comment behind its mark. -/
theorem isComment_label (p : OperationPlan) :
    (Step.line ("/// " ++ p.label)).isComment = true := by
  have hlabel : Text.OneLine p.label :=
    (((Text.OneLine.append (by decide) (oneLine_verb p.verb)).append
      (by decide)).append (Text.oneLine_singleLine _)).append (by decide)
  exact Source.isComment_line (by decide) (by decide) hlabel

/-- What is said about the method of an operation is no code. -/
theorem code_methodSteps (first : Bool) (p : OperationPlan) :
    code (methodSteps first p)
      = code ((if first then [] else [.blank])
        ++ [.enter ("fn " ++ p.handlerMethod ++ "("), .line "&self,",
          .line ("request: " ++ p.name ++ "Request,"),
          .leave (") -> impl std::future::Future<Output = Result<" ++ p.name
            ++ "Response, oasgen_runtime::HandlerError>> + Send;")]) := by
  simp only [methodSteps, List.flatten_cons, List.flatten_nil,
    List.append_nil, code_append]
  congr 1
  cases p.summary.or p.description with
  | some text => rfl
  | none => exact code_of_isComment _ (isComment_label p)

/-- Whatever the title, the line that holds it is a comment. -/
theorem isComment_title (title : String) :
    (Step.line (if (Text.singleLine title).isEmpty
      then "/// Operation handlers."
      else "/// Operation handlers for " ++ Text.singleLine title
        ++ ".")).isComment = true := by
  split
  · decide
  · rw [String.append_assoc]
    exact Source.isComment_line (by decide) (by decide)
      ((Text.oneLine_singleLine _).append (by decide))

/-- The trait of a server whose operations have no prose. -/
theorem code_handlerSteps {m m' : ServerModule}
    (h : m'.plans = m.plans.map OperationPlan.terse) :
    code (handlerSteps m') = code (handlerSteps m) := by
  have hmethods : (m'.plans.zipIdx.flatMap fun x =>
        code (methodSteps (x.2 == 0) x.1))
      = m.plans.zipIdx.flatMap fun x => code (methodSteps (x.2 == 0) x.1) := by
    rw [h, List.zipIdx_map, List.flatMap_map]
    refine List.flatMap_congr fun x _ => ?_
    simp only [Prod.map, code_methodSteps]
    rfl
  simp only [handlerSteps, List.flatten_cons, code_append, code_flatMap,
    code_of_isComment _ (isComment_title _), hmethods]

/-- The router and the parsers have no prose. -/
theorem routerSteps_terse {m m' : ServerModule}
    (h : m'.plans = m.plans.map OperationPlan.terse) :
    routerSteps m' = routerSteps m := by
  rw [routerSteps, routerSteps, h, List.flatMap_map, List.isEmpty_map]
  rfl

theorem parserSteps_terse (p : OperationPlan) :
    parserSteps p.terse = parserSteps p := by
  simp only [parserSteps, OperationPlan.terse, List.isEmpty_map, List.map_map]
  rfl

theorem code_sectionSteps (s : ServerSection) :
    code (sectionSteps s.terse) = code (sectionSteps s) := by
  simp only [sectionSteps, ServerSection.terse, List.flatten_cons, code_append,
    code_blank, code_requestSteps, code_responseSteps,
    Definition.code_listSteps]

/-- Without the prose of its sections, and with another title, a server has
the same code. -/
theorem code_steps {m m' : ServerModule}
    (h : m'.sections = m.sections.map ServerSection.terse) :
    code (steps m') = code (steps m) := by
  have hplans : m'.plans = m.plans.map OperationPlan.terse := by
    rw [plans, h, plans, List.map_map, List.map_map]
    rfl
  have hparsers : (m'.plans.flatMap fun p => .blank :: parserSteps p)
      = m.plans.flatMap fun p => .blank :: parserSteps p := by
    rw [hplans, List.flatMap_map]
    exact List.flatMap_congr fun p _ =>
      congrArg (Step.blank :: ·) (parserSteps_terse p)
  have hsections : code (m'.sections.flatMap sectionSteps)
      = code (m.sections.flatMap sectionSteps) := by
    rw [h, List.flatMap_map, code_flatMap, code_flatMap]
    exact List.flatMap_congr fun s _ => code_sectionSteps s
  simp only [steps, List.flatten_cons, code_append, code_blank, hsections,
    hparsers, code_handlerSteps hplans, routerSteps_terse hplans]

/-- The code of the server does not depend on the prose of the document; nor
does the error if it cannot be planned. -/
theorem source_terse (c : Catalog) :
    Answers (SameIn codeLines) c.serverSource c.terse.serverSource := by
  refine (ofCatalog_terse c).bind fun m m' hm => .ok ?_
  have hsections : m.sections.map ServerSection.terse
      = m'.sections.map ServerSection.terse := hm
  have hterse (m : ServerModule) :
      code (steps ⟨"", m.sections.map ServerSection.terse⟩) = code (steps m) :=
    code_steps rfl
  refine Source.codeLines_congr ?_
  rw [← hterse m, hsections, hterse]

end ServerModule

-- ================================================================ webhooks

namespace WebhookModule

/-- What is said about the method of a delivery is no code. -/
theorem code_methodSteps (d : Delivery) :
    code (methodSteps d.terse) = code (methodSteps d) := by
  have hsend : (Step.line ("/// Sends a \x60" ++ d.verb.name
      ++ "\x60 to \x60url\x60 and returns the response status.")).isComment
        = true := by
    rw [String.append_assoc]
    exact Source.isComment_line (by decide) (by decide)
      ((oneLine_verb d.verb).append (by decide))
  have hempty : (Step.line "///").isComment = true := by decide
  obtain ⟨verb, base, payload, summary, definitions⟩ := d
  simp only [methodSteps, List.flatten_cons, code_append, Delivery.terse,
    code_of_isComment _ hsend]
  cases summary with
  | none => rfl
  | some text => simp only [code_doc, code_of_isComment _ hempty]; rfl

/-- Webhooks that differ in prose only have the same code. -/
theorem code_steps {m m' : WebhookModule}
    (h : m'.deliveries = m.deliveries.map Delivery.terse) :
    code (steps m') = code (steps m) := by
  have hdefinitions :
      code (m'.deliveries.flatMap fun d => Definition.listSteps d.definitions)
        = code (m.deliveries.flatMap fun d =>
            Definition.listSteps d.definitions) := by
    rw [h, List.flatMap_map, code_flatMap, code_flatMap]
    exact List.flatMap_congr fun d _ => Definition.code_listSteps _
  have hmethods : code (m'.deliveries.flatMap methodSteps)
      = code (m.deliveries.flatMap methodSteps) := by
    rw [h, List.flatMap_map, code_flatMap, code_flatMap]
    exact List.flatMap_congr fun d _ => code_methodSteps d
  have hsender : code (senderSteps m'.deliveries)
      = code (senderSteps m.deliveries) := by
    simp only [senderSteps, List.flatten_cons, code_append, hmethods]
  simp only [steps, List.flatten_cons, code_append, code_blank, hdefinitions,
    hsender]

/-- So it is with the webhooks. -/
theorem source?_terse (c : Catalog) :
    Answers (SameIn (Option.map codeLines)) c.webhooksSource?
      c.terse.webhooksSource? := by
  refine (ofCatalog?_terse c).bind fun w w' hw => .ok ?_
  cases w with
  | none => cases w' with
    | none => rfl
    | some m' => cases hw
  | some m => cases w' with
    | none => cases hw
    | some m' =>
        have hdeliveries : m.deliveries.map Delivery.terse
            = m'.deliveries.map Delivery.terse := Option.some.inj hw
        have hterse (m : WebhookModule) :
            code (steps ⟨m.deliveries.map Delivery.terse⟩) = code (steps m) :=
          code_steps rfl
        refine congrArg some (Source.codeLines_congr ?_)
        rw [← hterse m, hdeliveries, hterse]

end WebhookModule

-- ================================================================ security

namespace SecurityModule

theorem schemeExpr_terse (s : SecurityScheme) :
    schemeExpr s.terse = schemeExpr s := by
  cases s <;> rfl

/-- What is said about the method of a scheme is no code. -/
theorem code_methodSteps (i : Nat) (name : String) (s : SecurityScheme) :
    code (methodSteps i name s)
      = code ((if i = 0 then [] else [.blank])
        ++ [.enter ("fn " ++ methodName name i ++ "("), .line "&self,",
          .line "credential: oasgen_runtime::security::Credential,",
          .line "scopes: &[String],",
          .leave (") -> impl std::future::Future<Output = "
            ++ "Result<oasgen_runtime::security::Principal, "
            ++ "oasgen_runtime::security::AuthError>> + Send;")]) := by
  have hname : (Step.line ("/// Scheme \x60" ++ Text.singleLine name
      ++ "\x60.")).isComment = true := by
    rw [String.append_assoc]
    exact Source.isComment_line (by decide) (by decide)
      ((Text.oneLine_singleLine _).append (by decide))
  simp only [methodSteps, List.flatten_cons, List.flatten_nil,
    List.append_nil, code_append]
  congr 1
  cases s.description with
  | some text => rfl
  | none => exact code_of_isComment _ hname

section

variable {schemes schemes' : Table SecurityScheme}

/-- Schemes of the same names have traits of the same code. -/
theorem code_handlerSteps
    (h : (schemes'.zipIdx.map fun x => (x.1.1, x.2))
      = schemes.zipIdx.map fun x => (x.1.1, x.2)) :
    code (handlerSteps schemes') = code (handlerSteps schemes) := by
  have hmethods (schemes : Table SecurityScheme) :
      (schemes.zipIdx.flatMap fun x => code (methodSteps x.2 x.1.1 x.1.2))
        = (schemes.zipIdx.map fun x => (x.1.1, x.2)).flatMap fun x =>
            code (methodSteps x.2 x.1 (.mutualTls none)) := by
    rw [List.flatMap_map]
    refine List.flatMap_congr fun x _ => ?_
    rw [code_methodSteps, code_methodSteps]
  simp only [handlerSteps, List.flatten_cons, code_append, code_flatMap,
    hmethods, h]

/-- They have the same authenticator. -/
theorem authenticatorSteps_congr
    (h : (schemes'.zipIdx.map fun x => (x.1.1, x.2))
      = schemes.zipIdx.map fun x => (x.1.1, x.2)) :
    authenticatorSteps schemes' = authenticatorSteps schemes := by
  have harms (schemes : Table SecurityScheme) :
      (schemes.zipIdx.map fun x => Step.line (Definition.literal x.1.1
          ++ " => Box::pin(self.0." ++ methodName x.1.1 x.2
          ++ "(credential, scopes)),"))
        = (schemes.zipIdx.map fun x => (x.1.1, x.2)).map fun x =>
            .line (Definition.literal x.1 ++ " => Box::pin(self.0."
              ++ methodName x.1 x.2 ++ "(credential, scopes)),") := by
    rw [List.map_map]
    rfl
  simp only [authenticatorSteps, harms, h]

end

/-- Without its prose the security has the same code. -/
theorem code_steps (m : SecurityModule) :
    code (steps m.terse) = code (steps m) := by
  have hnames : (m.terse.schemes.zipIdx.map fun x => (x.1.1, x.2))
      = m.schemes.zipIdx.map fun x => (x.1.1, x.2) := by
    rw [terse, Table.mapValues, List.zipIdx_map, List.map_map]
    rfl
  have hschemes : schemeSteps m.terse.schemes = schemeSteps m.schemes := by
    simp only [schemeSteps, terse, Table.mapValues, List.map_map,
      Function.comp_def, schemeExpr_terse]
  have hoperations : m.terse.operations = m.operations := rfl
  simp only [steps, List.flatten_cons, code_append, code_blank, hschemes,
    code_handlerSteps hnames, authenticatorSteps_congr hnames, hoperations]

end SecurityModule

/-- The security schemes have the same code without the prose. -/
theorem Document.securitySource?_terse (d : Document) :
    d.terse.securitySource?.map codeLines
      = d.securitySource?.map codeLines := by
  rw [securitySource?, securitySource?, SecurityModule.ofDocument?_terse]
  cases SecurityModule.ofDocument? d with
  | none => rfl
  | some m =>
      simp only [Option.map_some,
        Source.codeLines_congr (SecurityModule.code_steps m)]

-- =============================================================== artifacts

/-- The name of an artifact with its code. -/
def Artifact.code (a : Artifact) : String × List String :=
  (a.module, codeLines a.contents)

/-- The source of the webhooks, nothing when it is not asked for. -/
def Settings.webhooksSource? (s : Settings) (c : Catalog) :
    Except PlanError (Option String) :=
  if s.emitWebhooks then c.webhooksSource? else .ok none

/-- The artifacts of a document before the index. -/
def Settings.modules (s : Settings) (d : Document) :
    Except PlanError (List Artifact) := do
  let c ← d.catalog
  let server ← c.serverSource
  let webhooks ← s.webhooksSource? c
  let security := if s.emitSecurity then d.securitySource? else none
  return [⟨"types", c.typesSource⟩, ⟨"server", server⟩]
    ++ (security.map fun source => ⟨"security", source⟩).toList
    ++ (webhooks.map fun source => ⟨"webhooks", source⟩).toList

/-- The index is made last, and declares the other artifacts. -/
theorem Settings.generate_eq_modules (s : Settings) (d : Document) :
    s.generate d = (s.modules d).map fun parts =>
      parts ++ [⟨"mod", d.indexSource s.package (parts.map (·.module))⟩] := by
  rw [generate, modules]
  cases d.catalog with
  | error e => rfl
  | ok c =>
      simp only [bind, Except.bind]
      cases c.serverSource with
      | error e => rfl
      | ok server =>
          dsimp only
          rw [webhooksSource?]
          cases s.emitWebhooks with
          | false => rfl
          | true =>
              rw [if_pos rfl, if_pos rfl]
              cases c.webhooksSource? <;> rfl

/-- What the code of an artifact that may be absent adds to a list. -/
theorem code_toList (name : String) (source? : Option String) :
    ((source?.map fun source => Artifact.mk name source).toList).map
        Artifact.code
      = ((source?.map codeLines).map fun lines => (name, lines)).toList := by
  cases source? <;> rfl

theorem Document.catalog_terse (d : Document) :
    d.terse.catalog = d.catalog.map Catalog.terse := by
  rw [catalog, catalog, Catalog.ofDocument?_terse]
  cases Catalog.ofDocument? d <;> rfl

/-- The artifacts before the index have the same code without the prose of the
document. -/
theorem Settings.modules_terse (s : Settings) (d : Document) :
    Answers (SameIn (List.map Artifact.code)) (s.modules d)
      (s.modules d.terse) := by
  rw [modules, modules, Document.catalog_terse]
  cases hc : d.catalog with
  | error e => exact .error e
  | ok c =>
      -- types, webhooks and security one by one, then the server
      have htypes : codeLines c.typesSource = codeLines c.terse.typesSource :=
        Source.codeLines_congr (TypesModule.code_steps c)
      have hwebhooks : Answers (SameIn (Option.map codeLines))
          (s.webhooksSource? c) (s.webhooksSource? c.terse) := by
        rw [webhooksSource?, webhooksSource?]
        split
        · exact WebhookModule.source?_terse c
        · exact .ok rfl
      have hsecurity :
          (if s.emitSecurity then d.securitySource? else none).map codeLines
            = (if s.emitSecurity then d.terse.securitySource?
                else none).map codeLines := by
        split
        · exact d.securitySource?_terse.symm
        · rfl
      refine (ServerModule.source_terse c).bind fun server server' hserver =>
        hwebhooks.bind fun w w' hw => .ok ?_
      simp only [SameIn, List.map_append, List.map_cons, List.map_nil,
        code_toList, Artifact.code, htypes, hserver, hsecurity, hw]

/-- Answers are related through a function that takes them to the same. -/
theorem answers_sameIn_iff {ε : Type} {f : α → β} {r r' : Except ε α} :
    Answers (SameIn f) r r' ↔ r.map f = r'.map f := by
  constructor
  · intro h
    cases h with
    | ok ha => exact congrArg Except.ok ha
    | error e => rfl
  · intro h
    cases r with
    | error e => cases r' with
      | error e' => cases h; exact .error e
      | ok a' => cases h
    | ok a => cases r' with
      | error e' => cases h
      | ok a' => exact .ok (Except.ok.inj h)

/-- Artifacts of two documents have the same name and the same code, the index
if the documents have the same title and version. -/
structure Artifact.SameCode (d d' : Document) (a a' : Artifact) : Prop where
  name : a.module = a'.module
  code : (a.module = "mod" →
      d.info.title = d'.info.title ∧ d.info.version = d'.info.version) →
    codeLines a.contents = codeLines a'.contents

/-- Two documents that differ in nothing but prose generate the same code,
artifact by artifact, or fail with the same error. A title and a version that
differ show in the index only. -/
theorem Settings.prose_stays_in_comments {d d' : Document}
    (h : d.terse = d'.terse) (s : Settings) :
    Answers (List.Forall₂ (Artifact.SameCode d d')) (s.generate d)
      (s.generate d') := by
  -- both documents have the code of the one without prose
  have hmodules : Answers (SameIn (List.map Artifact.code)) (s.modules d)
      (s.modules d') := by
    have hd := answers_sameIn_iff.1 (s.modules_terse d)
    have hd' := answers_sameIn_iff.1 (s.modules_terse d')
    exact answers_sameIn_iff.2 (by rw [hd, hd', h])
  rw [generate_eq_modules, generate_eq_modules]
  generalize s.modules d = r, s.modules d' = r' at hmodules
  cases hmodules with
  | error e => exact .error e
  | @ok parts parts' hparts =>
      -- equal lists of pairs are pairwise equal artifacts
      have hpaired : List.Forall₂ (Artifact.SameCode d d') parts parts' := by
        rw [SameIn, ← List.forall₂_eq_eq_eq, List.forall₂_map_left_iff,
          List.forall₂_map_right_iff] at hparts
        exact hparts.imp fun a a' ha =>
          ⟨(Prod.mk.inj ha).1, fun _ => (Prod.mk.inj ha).2⟩
      have hnames : parts.map (·.module) = parts'.map (·.module) := by
        have hfirst := congrArg (List.map Prod.fst) hparts
        rw [List.map_map, List.map_map] at hfirst
        exact hfirst
      refine .ok (List.rel_append hpaired (.cons ⟨rfl, fun hinfo => ?_⟩ .nil))
      obtain ⟨htitle, hversion⟩ := hinfo rfl
      rw [hnames]
      exact congrArg codeLines (by
        rw [Document.indexSource, Document.indexSource, IndexModule.steps,
          IndexModule.steps, htitle, hversion])

-- ================================================================== kiosk

/-- An item loses its prose operation by operation. -/
theorem PathItem.terse_withOperation (item : PathItem) (verb : Verb)
    (o : Option Operation) :
    (item.withOperation verb o).terse
      = item.terse.withOperation verb (o.map Operation.terse) := by
  rw [withOperation, withOperation, terse, terse]
  simp only [apply_ite (Option.map Operation.terse)]

namespace Settings

/-- A body that holds news. -/
def newsContent : Content :=
  [("application/json", ⟨some (.ofPointer "#/components/schemas/News")⟩)]

/-- The reading of news, with a text in every place for prose. -/
def getNews (text : Option String) : Operation where
  id := some "getNews"
  summary := text
  description := text
  parameters := [.inline
    { name := "page", place := .query, description := text }]
  responses := [("200", .inline
    { description := text.getD "", content := newsContent })]

/-- The delivery of news, with a text in every place for prose. -/
def sendNews (text : Option String) : Operation where
  summary := text
  body := some (.inline { description := text, content := newsContent })

/-- A document with a text in every place for prose. -/
def kiosk (title : String) (text : Option String) : Document where
  openapi := "3.1.0"
  info := { title, version := "1", description := text }
  paths := some [("/news", PathItem.withOperation
    { summary := text, description := text } .get (some (getNews text)))]
  webhooks := [("printed", PathItem.withOperation
    { summary := text, description := text } .post (some (sendNews text)))]
  components := some
    { schemas := [("News",
        { types := ["object"], description := text
          properties := [("headline",
            { types := ["string"], description := text })] })]
      securitySchemes := [("key", .apiKey "X-Key" .header text)] }

/-- Neither the title of the kiosk nor its text is left when the prose is taken
out. -/
theorem terse_kiosk (title title' : String) (text text' : Option String) :
    (kiosk title text).terse = (kiosk title' text').terse := by
  simp only [Document.terse, kiosk, Table.mapValues, List.map_cons,
    List.map_nil, Option.map_some, PathItem.terse_withOperation]
  rfl

/-- A text that would be code if it left its comment. -/
def injection : String :=
  "All the news.\n\npub fn injected() \x7b\x7d\r\n*/ struct Injected;"

/-- A kiosk with this text in every place has the code of a kiosk that says
nothing. -/
theorem prose_stays_in_comments_kiosk : ∃ artifacts artifacts',
    (kiosk "News" none).terse = (kiosk "Papers" (some injection)).terse
      ∧ ({} : Settings).generate (kiosk "News" none) = .ok artifacts
      ∧ ({} : Settings).generate (kiosk "Papers" (some injection))
        = .ok artifacts'
      ∧ artifacts.map (·.module)
        = ["types", "server", "security", "webhooks", "mod"]
      ∧ artifacts ≠ artifacts'
      ∧ List.Forall₂ (Artifact.SameCode (kiosk "News" none)
          (kiosk "Papers" (some injection))) artifacts artifacts' := by
  have hterse := terse_kiosk "News" "Papers" none (some injection)
  have hsame := prose_stays_in_comments hterse {}
  -- the two runs are evaluated once for the names and once for the difference
  have hmodules : (({} : Settings).generate (kiosk "News" none)).toOption.map
      (List.map (·.module))
        = some ["types", "server", "security", "webhooks", "mod"] := by
    decide +kernel
  have hdiffer : ({} : Settings).generate (kiosk "News" none)
      ≠ ({} : Settings).generate (kiosk "Papers" (some injection)) := by
    decide +kernel
  generalize ({} : Settings).generate (kiosk "News" none) = r,
    ({} : Settings).generate (kiosk "Papers" (some injection)) = r'
    at hsame hmodules hdiffer
  cases hsame with
  | error e => cases hmodules
  | @ok artifacts artifacts' hpaired =>
      exact ⟨artifacts, artifacts', hterse, rfl, rfl, Option.some.inj hmodules,
        fun h => hdiffer (congrArg Except.ok h), hpaired⟩

end Settings

end ApiForge
