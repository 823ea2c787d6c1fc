import ApiForge.Artifact.Generate
import ApiForge.Proofs.Shape.Paired
/-!
Generation from paired documents.

Generation takes nothing from the schemas of a document but their shapes and
their descriptions, and nothing at all from the version that it names. So from
documents that are paired by shape (`Document.SameShape`) the same is
generated, under any settings, or generation fails with the same error
(`Document.Paired.generate`). Every step of planning is shown to be the same
step on both sides; the steps that go on with what a document holds are shown
to do so alike with related values.
-/

namespace ApiForge

open Document (SameShape)

variable {α β : Type} {d d' : Document} {c c' : Catalog}
variable {S : Schema → Schema → Prop}

-- ================================================================== fields

namespace Parameter.Paired

variable {p p' : Parameter} (h : Parameter.Paired S p p')
include h

theorem name : p.name = p'.name :=
  (congrArg (·.name) h.frame).symm

theorem place : p.place = p'.place :=
  (congrArg (·.place) h.frame).symm

theorem required : p.required = p'.required :=
  (congrArg (·.required) h.frame).symm

theorem description : p.description = p'.description :=
  (congrArg (·.description) h.frame).symm

end Parameter.Paired

theorem RequestBody.Paired.required {b b' : RequestBody}
    (h : RequestBody.Paired S b b') : b.required = b'.required :=
  (congrArg (·.required) h.frame).symm

theorem Response.Paired.description {r r' : Response}
    (h : Response.Paired S r r') : r.description = r'.description :=
  (congrArg (·.description) h.frame).symm

namespace Operation.Paired

variable {o o' : Operation} (h : Operation.Paired S o o')
include h

theorem id : o.id = o'.id :=
  (congrArg (·.id) h.frame).symm

theorem summary : o.summary = o'.summary :=
  (congrArg (·.summary) h.frame).symm

theorem description : o.description = o'.description :=
  (congrArg (·.description) h.frame).symm

theorem security : o.security = o'.security :=
  (congrArg (·.security) h.frame).symm

end Operation.Paired

-- ================================================================ catalogs

/-- Entries with the same name, shape and description. -/
structure CatalogEntry.Paired (e e' : CatalogEntry) : Prop where
  name : e.name = e'.name
  shape : e.shape = e'.shape
  description : e.schema.ownDescription = e'.schema.ownDescription

/-- Catalogs of paired documents, with the same names and shapes. -/
structure Catalog.Paired (c c' : Catalog) : Prop where
  document : Document.Paired (SameShape c.document c'.document)
    c.document c'.document
  entries : List.Forall₂ CatalogEntry.Paired c.entries c'.entries
  records : c.records = c'.records
  scalars : c.scalars = c'.scalars

/-- Values that are found for members that correspond are related. -/
theorem rel_mapM {P : α → α → Prop} {Q : β → β → Prop} {f g : α → Option β}
    {l l' : List α} (h : List.Forall₂ P l l')
    (hfg : ∀ a a', P a a' → Option.Rel Q (f a) (g a')) :
    Option.Rel (List.Forall₂ Q) (l.mapM f) (l'.mapM g) := by
  induction h with
  | nil => exact .some .nil
  | @cons a a' l l' ha _ ih =>
      rw [List.mapM_cons, List.mapM_cons]
      match f a, g a', hfg _ _ ha with
      | _, _, .none => exact .none
      | _, _, .some hb =>
          match l.mapM f, l'.mapM g, ih with
          | _, _, .none => exact .none
          | _, _, .some hrest => exact .some (.cons hb hrest)

namespace Catalog

/-- The catalogs of two paired documents have paired entries, or neither has any. -/
theorem entries?_paired (h : Document.Paired (SameShape d d') d d') :
    Option.Rel (List.Forall₂ CatalogEntry.Paired) (entries? d)
      (entries? d') := by
  refine rel_mapM h.shared.schemas fun e e' he => ?_
  cases he with
  | intro hs =>
      simp only [bind, Option.bind, pure, hs.shape]
      cases d'.shape? _ with
      | none => exact .none
      | some shape => exact .some ⟨rfl, rfl, hs.description⟩

/-- Paired entries have the same aliases. -/
theorem aliases_paired {es es' : List CatalogEntry}
    (h : List.Forall₂ CatalogEntry.Paired es es') :
    aliases es = aliases es' := by
  refine congrArg Table.ofList ?_
  induction h with
  | nil => rfl
  | cons he _ ih =>
      rw [List.filterMap_cons, List.filterMap_cons, ih, he.name, he.shape]

/-- Paired entries have the same names of any kind of shape. -/
theorem namesWhere_paired {es es' : List CatalogEntry}
    (h : List.Forall₂ CatalogEntry.Paired es es') (p : Shape → Bool) :
    namesWhere es p = namesWhere es' p := by
  have hnames : (es.filter fun e => p e.shape).map (·.name)
      = (es'.filter fun e => p e.shape).map (·.name) := by
    induction h with
    | nil => rfl
    | cons he _ ih =>
        rw [List.filter_cons, List.filter_cons, he.shape]
        split <;> simp only [List.map_cons, he.name, ih]
  rw [namesWhere, namesWhere, aliases_paired h, hnames]

/-- Documents that are paired by shape have paired catalogs, or none. -/
theorem ofDocument?_paired (h : Document.Paired (SameShape d d') d d') :
    Option.Rel Catalog.Paired (ofDocument? d) (ofDocument? d') := by
  rw [ofDocument?, ofDocument?]
  match entries? d, entries? d', entries?_paired h with
  | _, _, .none => exact .none
  | _, _, .some hentries =>
      exact .some ⟨h, hentries, namesWhere_paired hentries _,
        namesWhere_paired hentries _⟩

namespace Paired

variable (h : Catalog.Paired c c')
include h

theorem isRecord : c.isRecord = c'.isRecord := by
  funext name
  rw [Catalog.isRecord, Catalog.isRecord, h.records]

theorem isScalar : c.isScalar = c'.isScalar := by
  funext shape
  rw [Catalog.isScalar.eq_def, Catalog.isScalar.eq_def, h.scalars]

-- ============================================================= definitions

theorem needsBox : c.needsBox = c'.needsBox := by
  funext f owner
  rw [Catalog.needsBox.eq_def, Catalog.needsBox.eq_def, h.isRecord]

theorem renderField : Hoist.renderField c = Hoist.renderField c' := by
  funext f owner hoist
  rw [Hoist.renderField, Hoist.renderField, h.needsBox]

/-- A struct has the same fields under paired catalogs. -/
theorem fieldsOf (owner : String) (i : Nat) (fields : List Field) :
    Definition.fieldsOf c owner i fields
      = Definition.fieldsOf c' owner i fields := by
  induction fields generalizing i with
  | nil => rfl
  | cons f rest ih =>
      rw [Definition.fieldsOf, Definition.fieldsOf, h.renderField, ih]

theorem ofShape : Definition.ofShape c = Definition.ofShape c' := by
  funext name description shape
  rw [Definition.ofShape.eq_def, Definition.ofShape.eq_def]
  simp only [h.fieldsOf]

/-- A queue is emptied alike under paired catalogs. -/
theorem drain : Definition.drain c = Definition.drain c' := by
  have hwithin (left : Nat) :
      Definition.drainWithin c left = Definition.drainWithin c' left := by
    induction left with
    | zero => rfl
    | succ left ih =>
        rw [Definition.drainWithin, Definition.drainWithin, h.ofShape, ih]
  rw [Definition.drain, Definition.drain]
  simp only [hwithin]

/-- Paired entries are defined alike. -/
theorem define {es es' : List CatalogEntry}
    (hes : List.Forall₂ CatalogEntry.Paired es es') :
    TypesModule.define c es = TypesModule.define c' es' := by
  induction hes with
  | nil => rfl
  | cons he _ ih =>
      rw [TypesModule.define, TypesModule.define, he.name, he.shape,
        he.description, h.ofShape, h.drain, ih]

theorem typesSource : c.typesSource = c'.typesSource := by
  rw [Catalog.typesSource, Catalog.typesSource, TypesModule.steps,
    TypesModule.steps, TypesModule.definitions, TypesModule.definitions,
    h.define h.entries]

end Paired

end Catalog

-- ============================================================== parameters

namespace Parameter

/-- A parameter is put in the place of one with its slot, in both lists at once. -/
theorem put_paired {p p' : Parameter} {ps ps' : List Parameter}
    (hp : Parameter.Paired S p p')
    (hps : List.Forall₂ (Parameter.Paired S) ps ps') :
    List.Forall₂ (Parameter.Paired S) (put p ps) (put p' ps') := by
  induction hps with
  | nil => exact .cons hp .nil
  | cons hq hrest ih =>
      rw [put, put, sameSlot, sameSlot, hp.name, hp.place, hq.name, hq.place]
      split
      · exact .cons hp hrest
      · exact .cons hq ih

/-- Merging paired entries gives paired parameters, or the same error. -/
theorem mergeFrom_paired (h : Document.Paired S d d') (context : String)
    {entries entries' : List (Referable Parameter)}
    (hentries : List.Forall₂ (Referable.Alike (Parameter.Paired S))
      entries entries') (i : Nat) {ps ps' : List Parameter}
    (hps : List.Forall₂ (Parameter.Paired S) ps ps') :
    Answers (List.Forall₂ (Parameter.Paired S))
      (mergeFrom d context i ps entries)
      (mergeFrom d' context i ps' entries') := by
  induction hentries generalizing i ps ps' with
  | nil => exact .ok hps
  | cons he _ ih =>
      cases he with
      | inline hp => exact ih (i + 1) (put_paired hp hps)
      | pointer target =>
          rw [mergeFrom, mergeFrom]
          match d.resolveParameter target, d'.resolveParameter target,
            h.resolveParameter target with
          | _, _, .error e => exact .error _
          | _, _, .ok hp => exact ih (i + 1) (put_paired hp hps)

/-- The parameters of an operation correspond, with those of its path. -/
theorem merged_paired (h : Document.Paired S d d') {item item' : PathItem}
    {o o' : Operation} (hitem : PathItem.Paired S item item')
    (ho : Operation.Paired S o o') (context : String) :
    Answers (List.Forall₂ (Parameter.Paired S)) (merged d item o context)
      (merged d' item' o' context) :=
  mergeFrom_paired h context (List.rel_append hitem.parameters ho.parameters)
    0 .nil

end Parameter

-- ================================================================= content

/-- In tables with the same keys a search by key finds paired values. -/
theorem find?_paired {P : α → α → Prop} {t t' : Table α}
    (h : Table.Alike P t t') (p : String → Bool) :
    Option.Rel P ((t.find? fun e => p e.1).map (·.2))
      ((t'.find? fun e => p e.1).map (·.2)) := by
  induction h with
  | nil => exact .none
  | cons he _ ih =>
      cases he with
      | @intro k _ _ ha =>
          rw [List.find?_cons, List.find?_cons]
          cases p k with
          | true => exact .some ha
          | false => exact ih

/-- Two answers with a second choice each are paired when both choices are. -/
theorem rel_orElse {P : α → α → Prop} {o o' x x' : Option α}
    (h : Option.Rel P o o') (hx : Option.Rel P x x') :
    Option.Rel P (o <|> x) (o' <|> x') := by
  cases h with
  | none => exact hx
  | some ha => exact .some ha

/-- The JSON forms of related bodies are related. -/
theorem Content.json?_paired {b b' : Content}
    (h : Table.Alike (MediaType.Paired S) b b') :
    Option.Rel (MediaType.Paired S) b.json? b'.json? :=
  rel_orElse (h.get? _)
    (rel_orElse (find?_paired h fun k => k.startsWith "application/json")
      (find?_paired h fun k => k.endsWith "+json"))

-- ================================================================ planning

namespace Planning

/-- Going on alike with what related entries hold is the same step. -/
theorem target_bind {P : α → α → Prop} {e e' : Referable α}
    {resolve resolve' : String → Except ResolveError α}
    {k k' : α → Planning β} (he : Referable.Alike P e e')
    (hresolve : ∀ p, Answers P (resolve p) (resolve' p))
    (hk : ∀ a a', P a a' → k a = k' a') (context : String) :
    (target context resolve e >>= k) = target context resolve' e' >>= k' := by
  cases he with
  | inline ha => exact hk _ _ ha
  | pointer p =>
      rw [target, target]
      match resolve p, resolve' p, hresolve p with
      | _, _, .error e => rfl
      | _, _, .ok ha => exact hk _ _ ha

theorem shape_paired {s s' : Schema}
    (h : SameShape c.document c'.document s s') : shape c s = shape c' s' := by
  rw [shape, shape, h.shape]

/-- Paired media types have the same shape. -/
theorem mediaShape_paired {m m' : MediaType}
    (h : MediaType.Paired (SameShape c.document c'.document) m m') :
    mediaShape c m = mediaShape c' m' := by
  have hschema : Option.Rel _ m.schema m'.schema := h
  rw [mediaShape, mediaShape]
  match m.schema, m'.schema, hschema with
  | _, _, .none => rfl
  | _, _, .some hs => exact shape_paired hs

end Planning

open Planning (target_bind shape_paired mediaShape_paired)

/-- Operations at the same place, on related paths. -/
structure Document.Endpoint.Paired (S : Schema → Schema → Prop)
    (e e' : Document.Endpoint) : Prop where
  path : e.path = e'.path
  verb : e.verb = e'.verb
  item : PathItem.Paired S e.item e'.item
  operation : Operation.Paired S e.operation e'.operation

/-- Paired documents have paired operations, in the same order. -/
theorem Document.Paired.operations (h : Document.Paired S d d') :
    List.Forall₂ (Document.Endpoint.Paired S) d.operations d'.operations := by
  refine List.rel_flatMap h.pathTable fun e e' he => ?_
  cases he with
  | intro hitem =>
      refine List.rel_map (fun x x' hx => ?_) hitem.operations
      cases hx with
      | intro ho => exact ⟨rfl, rfl, hitem, ho⟩

namespace Catalog.Paired

variable (h : Catalog.Paired c c')
include h

/-- Paired parameters are planned as the same fields. -/
theorem planParameters {ps ps' : List Parameter}
    (hps : List.Forall₂
      (Parameter.Paired (SameShape c.document c'.document)) ps ps')
    (name : String) (i : Nat) :
    OperationPlan.planParameters c name i ps
      = OperationPlan.planParameters c' name i ps' := by
  induction hps generalizing i with
  | nil => rfl
  | @cons p p' _ _ hp _ ih =>
      have hrequired : RequestField.requiredIn p
          = RequestField.requiredIn p' := by
        rw [RequestField.requiredIn, RequestField.requiredIn, hp.place,
          hp.required]
      have htype : RequestField.typeOf c name p
          = RequestField.typeOf c' name p' := by
        funext shape
        rw [RequestField.typeOf, RequestField.typeOf, h.isScalar, hp.name]
      rw [OperationPlan.planParameters, OperationPlan.planParameters,
        hrequired, htype, hp.name, hp.place, hp.description]
      simp only [ih]
      match p.schema, p'.schema, hp.schema with
      | _, _, .none => rfl
      | _, _, .some hs => simp only [shape_paired hs]

/-- Paired bodies are planned alike. -/
theorem planBody {o o' : Option (Referable RequestBody)}
    (ho : Option.Rel (Referable.Alike
      (RequestBody.Paired (SameShape c.document c'.document))) o o')
    (context name : String) :
    OperationPlan.planBody c context name o
      = OperationPlan.planBody c' context name o' := by
  cases ho with
  | none => rfl
  | some he =>
      refine target_bind he h.document.resolveRequestBody (fun b b' hb => ?_) _
      rw [hb.required]
      match b.content.json?, b'.content.json?,
        Content.json?_paired hb.content with
      | _, _, .none => rfl
      | _, _, .some hm => simp only [mediaShape_paired hm]

/-- Paired answers are planned as the same variants. -/
theorem planVariants {t t' : Table (Referable Response)}
    (ht : Table.Alike (Referable.Alike
      (Response.Paired (SameShape c.document c'.document))) t t')
    (context name : String) :
    OperationPlan.planVariants c context name t
      = OperationPlan.planVariants c' context name t' := by
  induction ht with
  | nil => rfl
  | cons he _ ih =>
      cases he with
      | @intro key _ _ he =>
          rw [OperationPlan.planVariants, OperationPlan.planVariants]
          -- keys are the same on both sides, so both are statuses or neither is
          cases ResponseVariant.statusOf? key with
          | none => exact ih
          | some status =>
              refine target_bind he h.document.resolveResponse
                (fun r r' hr => ?_) _
              rw [hr.description, ih]
              match r.content.json?, r'.content.json?,
                Content.json?_paired hr.content with
              | _, _, .none => rfl
              | _, _, .some hm => simp only [mediaShape_paired hm]

/-- Corresponding operations are planned by the same step. -/
theorem ofEndpoint {e e' : Document.Endpoint}
    (he : Document.Endpoint.Paired (SameShape c.document c'.document) e e') :
    OperationPlan.ofEndpoint c e = OperationPlan.ofEndpoint c' e' := by
  have ho := he.operation
  have hmerged := Parameter.merged_paired h.document he.item ho
    (e'.verb.name ++ " " ++ e'.path)
  rw [OperationPlan.ofEndpoint, OperationPlan.ofEndpoint]
  simp only [he.path, he.verb, ho.id, ho.summary, ho.description,
    h.planBody ho.body, h.planVariants ho.responses]
  match Parameter.merged c.document e.item e.operation _,
    Parameter.merged c'.document e'.item e'.operation _, hmerged with
  | _, _, .error e => rfl
  | _, _, .ok hps => simp only [pure_bind, h.planParameters hps]

/-- Paired operations are planned as the same sections. -/
theorem planSections {es es' : List Document.Endpoint}
    (hes : List.Forall₂ (Document.Endpoint.Paired
      (SameShape c.document c'.document)) es es') :
    ServerModule.planSections c es = ServerModule.planSections c' es' := by
  induction hes with
  | nil => rfl
  | cons he _ ih =>
      rw [ServerModule.planSections, ServerModule.planSections,
        h.ofEndpoint he, h.drain, ih]

theorem info : c.document.info = c'.document.info :=
  (congrArg (·.info) h.document.frame).symm

theorem serverSource : c.serverSource = c'.serverSource := by
  rw [Catalog.serverSource, Catalog.serverSource, ServerModule.ofCatalog,
    ServerModule.ofCatalog, h.info, h.planSections h.document.operations]

-- ================================================================ webhooks

/-- Paired bodies of a webhook give the same payload. -/
theorem planPayload {o o' : Option (Referable RequestBody)}
    (ho : Option.Rel (Referable.Alike
      (RequestBody.Paired (SameShape c.document c'.document))) o o')
    (webhook base : String) :
    WebhookModule.planPayload c webhook base o
      = WebhookModule.planPayload c' webhook base o' := by
  cases ho with
  | none => rfl
  | some he =>
      refine target_bind he h.document.resolveRequestBody (fun b b' hb => ?_) _
      rw [hb.required]
      match b.content.json?, b'.content.json?,
        Content.json?_paired hb.content with
      | _, _, .none => rfl
      | _, _, .some hm =>
          simp only [mediaShape_paired hm, h.ofShape, h.drain]

/-- Paired operations of a webhook are planned alike. -/
theorem planWebhook {os os' : List (Verb × Operation)}
    (hos : List.Forall₂ (Keyed (Operation.Paired
      (SameShape c.document c'.document))) os os')
    (name : String) (several : Bool) :
    WebhookModule.planWebhook c name several os
      = WebhookModule.planWebhook c' name several os' := by
  induction hos with
  | nil => rfl
  | cons he _ ih =>
      cases he with
      | intro ho =>
          rw [WebhookModule.planWebhook, WebhookModule.planWebhook, ho.summary,
            ho.description, ih]
          simp only [h.planPayload ho.body]

/-- Paired webhooks are planned alike. -/
theorem planWebhooks {t t' : Table PathItem}
    (ht : Table.Alike (PathItem.Paired
      (SameShape c.document c'.document)) t t') :
    WebhookModule.planWebhooks c t = WebhookModule.planWebhooks c' t' := by
  induction ht with
  | nil => rfl
  | cons he _ ih =>
      cases he with
      | intro hitem =>
          rw [WebhookModule.planWebhooks, WebhookModule.planWebhooks,
            h.planWebhook hitem.operations, hitem.operations.length_eq, ih]

/-- The webhooks have the same text, or neither document has any. -/
theorem webhooksSource? : c.webhooksSource? = c'.webhooksSource? := by
  rw [Catalog.webhooksSource?, Catalog.webhooksSource?,
    WebhookModule.ofCatalog?, WebhookModule.ofCatalog?,
    isEmpty_of_forall₂ h.document.webhooks,
    h.planWebhooks h.document.webhooks]

end Catalog.Paired

-- =============================================================== artifacts

namespace Document.Paired

/-- The security of a document has nothing to do with its schemas. -/
theorem securitySource? (h : Document.Paired S d d') :
    d.securitySource? = d'.securitySource? := by
  have hschemes : d.securitySchemes = d'.securitySchemes :=
    (congrArg (·.securitySchemes) h.shared.frame).symm
  have hsecurity : d.security = d'.security :=
    (congrArg (·.security) h.frame).symm
  have hoperations : (d.operations.map fun e =>
        SecuredOperation.mk e.verb e.path (d.requirementOf e.operation))
      = d'.operations.map fun e =>
        SecuredOperation.mk e.verb e.path (d'.requirementOf e.operation) := by
    rw [← List.forall₂_eq_eq_eq, List.forall₂_map_left_iff,
      List.forall₂_map_right_iff]
    refine h.operations.imp fun e e' he => ?_
    rw [requirementOf, requirementOf, he.operation.security, hsecurity,
      he.path, he.verb]
  rw [Document.securitySource?, Document.securitySource?,
    SecurityModule.ofDocument?, SecurityModule.ofDocument?, hschemes,
    hoperations]

/-- From documents that are paired by shape the same is generated, whatever the
settings are. -/
theorem generate (h : Document.Paired (SameShape d d') d d') (s : Settings) :
    s.generate d = s.generate d' := by
  have hindex : d.indexSource = d'.indexSource := by
    funext package modules
    rw [Document.indexSource, Document.indexSource, h.frame]
  rw [Settings.generate, Settings.generate, h.securitySource?, hindex,
    Document.catalog, Document.catalog]
  match Catalog.ofDocument? d, Catalog.ofDocument? d',
    Catalog.ofDocument?_paired h with
  | _, _, .none => rfl
  | _, _, .some hc =>
      simp only [bind, Except.bind, hc.typesSource, hc.serverSource,
        hc.webhooksSource?]

end Document.Paired

end ApiForge
