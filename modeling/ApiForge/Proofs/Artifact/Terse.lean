import ApiForge.Proofs.Artifact.Generate
import ApiForge.Proofs.Reference.Paired
import ApiForge.Proofs.Shape.Terse
/-!
Plans of terse documents.

What is planned from a terse document is what is planned from the document,
but for the prose that the plan carries. Planning runs twice, side by side
(`Hoist.Agree`, `Planning.Agree`): from a queue and the same queue without
prose, two steps give answers that are related, or fail with the same error,
and leave such queues again. The answers of the two runs need not have the same
prose: they are related by having the same terse form (`SameIn`). There is one
lemma for each step of planning, and a rule for steps in sequence.
-/

namespace ApiForge

variable {α β γ : Type}

/-- Two values are the same under a function. -/
abbrev SameIn (f : α → γ) (a a' : α) : Prop :=
  f a = f a'

-- ================================================================ hoisting

/-- The hoisted shape without prose. -/
def Hoisted.terse (p : Hoisted) : Hoisted :=
  { p with shape := p.shape.terse }

/-- The queue without prose. -/
def Hoist.terse (h : Hoist) : Hoist :=
  { h with pending := h.pending.map Hoisted.terse }

/-- From a queue and the same without prose, two steps give related answers
and leave such queues. -/
def Hoist.Agree (R : α → α → Prop) (m m' : StateM Hoist α) : Prop :=
  ∀ h, R (m h).1 (m' h.terse).1 ∧ (m' h.terse).2 = (m h).2.terse

namespace Hoist

variable {R : α → α → Prop} {Q : β → β → Prop}

theorem Agree.pure {a a' : α} (h : R a a') : Agree R (pure a) (pure a') :=
  fun _ => ⟨h, rfl⟩

/-- Runs on the queue agree in sequence, when the second parts do for related
results. -/
theorem Agree.bind {m m' : StateM Hoist α} {k k' : α → StateM Hoist β}
    (hm : Agree R m m') (hk : ∀ a a', R a a' → Agree Q (k a) (k' a')) :
    Agree Q (m >>= k) (m' >>= k') := by
  intro h
  obtain ⟨hanswer, hqueue⟩ := hm h
  have hnext := hk _ _ hanswer (m h).2
  rw [← hqueue] at hnext
  exact hnext

/-- Prose does not weigh anything. -/
theorem weight_terse (ps : List Hoisted) :
    Hoisted.weight (ps.map Hoisted.terse) = Hoisted.weight ps := by
  induction ps with
  | nil => rfl
  | cons p rest ih =>
      rw [List.map_cons, Hoisted.weight, Hoisted.weight, ih, Hoisted.terse,
        Shape.size_terse]

/-- A terse shape has the same type expression and hoists terse shapes. -/
theorem express_terse (hint : String) (shape : Shape) :
    express hint shape.terse
      = ((express hint shape).1, (express hint shape).2.map Hoisted.terse) := by
  fun_induction express hint shape with
  | case2 hint item e hoisted hitem ih =>
      rw [hitem] at ih
      rw [Shape.terse, express, ih]
  | case3 hint value e hoisted hvalue ih =>
      rw [hvalue] at ih
      rw [Shape.terse, express, ih]
  | _ => rfl

/-- A shape is written alike with and without prose. -/
theorem render_terse (shape : Shape) (hint : String) :
    Agree Eq (render shape hint) (render shape.terse hint) := by
  intro h
  rw [render, render, express_terse]
  refine ⟨rfl, ?_⟩
  simp only [terse, List.map_append]

/-- The type of a field is written alike with and without prose. -/
theorem renderField_terse (c : Catalog) (f : Field) (owner : String) :
    Agree Eq (renderField c f owner)
      (renderField c.terse (Shape.terseField f) owner) := by
  have hstep (c : Catalog) (f : Field) :
      renderField c f owner = (do
        let type ← render f.shape (fieldHint owner f)
        let type := if c.needsBox f owner then .box type else type
        return if f.required then type else .optional type
          : StateM Hoist TypeExpr) := rfl
  rw [hstep, hstep, c.needsBox_terse]
  refine (render_terse f.shape (fieldHint owner f)).bind fun type _ htype => ?_
  subst htype
  exact .pure rfl

theorem claim_terse (name : String) : Agree Eq (claim name) (claim name) := by
  intro h
  rw [claim, claim, terse]
  split <;> exact ⟨rfl, rfl⟩

/-- Which shape in the queue is next does not depend on prose. -/
theorem firstFree_terse (claimed : List String) (ps : List Hoisted) :
    firstFree claimed (ps.map Hoisted.terse)
      = (firstFree claimed ps).map fun x =>
          (x.1.terse, x.2.map Hoisted.terse) := by
  induction ps with
  | nil => rfl
  | cons p rest ih =>
      have hname : p.terse.name = p.name := rfl
      rw [List.map_cons, firstFree, firstFree, hname]
      cases claimed.contains p.name with
      | true => exact ih
      | false => rfl

theorem next_terse :
    Agree (fun o o' => o' = o.map Hoisted.terse) next next := by
  intro h
  rw [next, next, terse, firstFree_terse]
  cases firstFree h.claimed h.pending <;> exact ⟨rfl, rfl⟩

end Hoist

-- ============================================================= definitions

/-- The field without prose. -/
def StructField.terse (f : StructField) : StructField :=
  { f with description := none }

/-- The body of a definition without prose. -/
def DefinitionBody.terse : DefinitionBody → DefinitionBody
  | .struct fields => .struct (fields.map StructField.terse)
  | .enumeration literals => .enumeration literals
  | .alias target => .alias target

/-- The definition without prose. -/
def Definition.terse (d : Definition) : Definition :=
  { d with description := none, body := d.body.terse }

namespace Definition

open Hoist (Agree)

/-- The fields of a struct lose their prose one by one. -/
theorem fieldsOf_terse (c : Catalog) (owner : String) (i : Nat)
    (fields : List Field) :
    Agree (SameIn (List.map StructField.terse)) (fieldsOf c owner i fields)
      (fieldsOf c.terse owner i (fields.map Shape.terseField)) := by
  induction fields generalizing i with
  | nil => exact .pure rfl
  | cons f rest ih =>
      rw [fieldsOf, List.map_cons, fieldsOf]
      refine (Hoist.renderField_terse c f owner).bind fun type _ htype => ?_
      subst htype
      refine (ih (i + 1)).bind fun fs fs' hfs => .pure ?_
      rw [SameIn, List.map_cons, List.map_cons, hfs]
      rfl

/-- Terse shapes are defined alike, whatever is said about them. -/
theorem ofShape_terse (c : Catalog) (name : String)
    (description description' : Option String) (shape : Shape) :
    Agree (SameIn terse) (ofShape c name description shape)
      (ofShape c.terse name description' shape.terse) := by
  match shape with
  | .record fields =>
      rw [Shape.terse, Shape.terseFields_eq]
      refine (fieldsOf_terse c name 0 fields).bind fun fs fs' hfs => .pure ?_
      simp only [SameIn, terse, DefinitionBody.terse, hfs]
  | .choice literals => exact .pure rfl
  | .list _ | .map _ | .named _ | .text | .date | .dateTime | .int32 | .int64
  | .float32 | .float64 | .bool | .any =>
      refine (Hoist.render_terse _ name).bind fun type _ htype => ?_
      subst htype
      exact .pure rfl

/-- The queue is emptied alike, within the same bound. -/
theorem drainWithin_terse (c : Catalog) (left : Nat) :
    Agree (SameIn (List.map terse)) (drainWithin c left)
      (drainWithin c.terse left) := by
  induction left with
  | zero => exact .pure rfl
  | succ left ih =>
      rw [drainWithin, drainWithin]
      refine Hoist.next_terse.bind fun o _ ho => ?_
      subst ho
      cases o with
      | none => exact .pure rfl
      | some p =>
          refine (ofShape_terse c p.name none none p.shape).bind
            fun d d' hd => ih.bind fun ds ds' hds => .pure ?_
          rw [SameIn, List.map_cons, List.map_cons, hd, hds]

/-- The definitions that empty the queue lose their prose one by one. -/
theorem drain_terse (c : Catalog) :
    Agree (SameIn (List.map terse)) (drain c) (drain c.terse) := by
  intro h
  have hdrain : drain c.terse h.terse
      = drainWithin c.terse (Hoisted.weight h.pending + 1) h.terse :=
    congrArg (fun n => drainWithin c.terse (n + 1) h.terse)
      (Hoist.weight_terse h.pending)
  rw [hdrain]
  exact drainWithin_terse c (Hoisted.weight h.pending + 1) h

end Definition

/-- The definitions of the types lose their prose one by one. -/
theorem TypesModule.define_terse (c : Catalog) (es : List CatalogEntry) :
    Hoist.Agree (SameIn (List.map Definition.terse)) (define c es)
      (define c.terse (es.map CatalogEntry.terse)) := by
  induction es with
  | nil => exact .pure rfl
  | cons e rest ih =>
      rw [define, List.map_cons, define]
      refine (Hoist.claim_terse e.name).bind fun free _ hfree => ?_
      subst hfree
      cases free with
      | false => exact ih
      | true =>
          refine (Definition.ofShape_terse c e.name _ _ e.shape).bind
            fun d d' hd => (Definition.drain_terse c).bind
              fun hoisted hoisted' hh => ih.bind fun ds ds' hds => .pure ?_
          simp only [SameIn, List.map_cons, List.map_append, hd, hh, hds]

/-- The types of a terse document are those of the document, but for prose. -/
theorem TypesModule.definitions_terse (c : Catalog) :
    (definitions c).map Definition.terse
      = (definitions c.terse).map Definition.terse :=
  (define_terse c c.entries {}).1

-- =============================================================== planning

/-- From a queue and the same without prose, two steps fail with the same
error, or give related answers and leave such queues. -/
def Planning.Agree (R : α → α → Prop) (m m' : Planning α) : Prop :=
  ∀ h, Answers (fun r r' => R r.1 r'.1 ∧ r'.2 = r.2.terse) (m.run h)
    (m'.run h.terse)

namespace Planning

variable {R : α → α → Prop} {Q : β → β → Prop}

theorem Agree.pure {a a' : α} (h : R a a') : Agree R (pure a) (pure a') :=
  fun _ => .ok ⟨h, rfl⟩

theorem Agree.throw (e : PlanError) :
    Agree R (throw e : Planning α) (throw e) :=
  fun _ => .error e

/-- Plans agree in sequence, when the second parts do for related results. -/
theorem Agree.bind {m m' : Planning α} {k k' : α → Planning β}
    (hm : Agree R m m') (hk : ∀ a a', R a a' → Agree Q (k a) (k' a')) :
    Agree Q (m >>= k) (m' >>= k') := by
  intro h
  refine (hm h).bind fun r r' hr => ?_
  obtain ⟨a, s⟩ := r
  obtain ⟨a', s'⟩ := r'
  obtain ⟨hanswer, rfl⟩ := hr
  exact hk a a' hanswer s

theorem Agree.ofHoist {m m' : StateM Hoist α} (hm : Hoist.Agree R m m') :
    Agree R (ofHoist m) (ofHoist m') :=
  fun h => .ok (hm h)

/-- What an entry holds, and what the terse entry does. -/
theorem target_terse {t : α → α}
    {resolve resolve' : String → Except ResolveError α}
    (h : ∀ p, resolve' p = (resolve p).map t) (context : String)
    (e : Referable α) :
    Agree (fun a a' => a' = t a) (target context resolve e)
      (target context resolve' (e.map t)) := by
  cases e with
  | inline a => exact .pure rfl
  | pointer p =>
      rw [Referable.map, target, target, h]
      cases resolve p with
      | error e => exact .throw _
      | ok a => exact .pure rfl

/-- A schema without prose has the shape without prose. -/
theorem shape_terse (c : Catalog) (s : Schema) :
    Agree (fun x x' => x' = x.terse) (shape c s) (shape c.terse s.terse) := by
  rw [shape, shape, Catalog.terse, Document.shape?_terse]
  cases c.document.shape? s with
  | none => exact .throw _
  | some x => exact .pure rfl

/-- A media type without prose has the shape without prose. -/
theorem mediaShape_terse (c : Catalog) (m : MediaType) :
    Agree (fun x x' => x' = x.terse) (mediaShape c m)
      (mediaShape c.terse m.terse) := by
  rw [mediaShape, mediaShape, MediaType.terse]
  cases m.schema with
  | none => exact .pure rfl
  | some s => exact shape_terse c s

end Planning

/-- The JSON form of a terse body. -/
theorem Content.json?_terse (content : Content) :
    Content.json? (Table.mapValues MediaType.terse content)
      = content.json?.map MediaType.terse := by
  have hfind (p : String → Bool) :
      ((Table.mapValues MediaType.terse content).find? fun e => p e.1).map (·.2)
        = ((content.find? fun e => p e.1).map (·.2)).map MediaType.terse := by
    rw [Table.mapValues, List.find?_map, Option.map_map, Option.map_map]
    rfl
  rw [json?, json?, Table.get?_mapValues, hfind fun k =>
    k.startsWith "application/json", hfind fun k => k.endsWith "+json"]
  cases Table.get? "application/json" content with
  | some m => rfl
  | none =>
      cases (content.find? fun e => e.1.startsWith "application/json") <;> rfl

namespace Planning

/-- A body without prose has the shape without prose, under the same media type. -/
theorem bodyShape_terse (c : Catalog) (context : String)
    (o : Option (Referable RequestBody)) :
    Agree (fun x x' => x' = x.map fun r => (r.1.terse, r.2))
      (bodyShape c context o)
      (bodyShape c.terse context (o.map (Referable.map RequestBody.terse))) := by
  cases o with
  | none => exact .pure rfl
  | some entry =>
      rw [bodyShape, Option.map_some, bodyShape]
      refine (target_terse c.document.resolveRequestBody_terse _
        entry).bind fun b _ hb => ?_
      subst hb
      rw [RequestBody.terse, Content.json?_terse]
      cases b.content.json? with
      | none => exact .pure rfl
      | some m =>
          refine (mediaShape_terse c m).bind fun x _ hx => ?_
          subst hx
          exact .pure rfl

end Planning

-- ============================================================= parameters

namespace Parameter

/-- A parameter takes the same place without prose. -/
theorem put_terse (p : Parameter) (ps : List Parameter) :
    put p.terse (ps.map terse) = (put p ps).map terse := by
  induction ps with
  | nil => rfl
  | cons q rest ih =>
      have hslot : sameSlot p.terse q.terse = sameSlot p q := rfl
      rw [List.map_cons, put, put, hslot, ih]
      split <;> rfl

/-- Parameters are merged alike, and fail at the same reference. -/
theorem mergeFrom_terse (d : Document) (context : String) (i : Nat)
    (ps : List Parameter) (entries : List (Referable Parameter)) :
    mergeFrom d.terse context i (ps.map terse)
        (entries.map (Referable.map terse))
      = (mergeFrom d context i ps entries).map (List.map terse) := by
  induction entries generalizing i ps with
  | nil => rfl
  | cons e rest ih =>
      cases e with
      | inline p =>
          rw [List.map_cons, Referable.map, mergeFrom, mergeFrom, put_terse, ih]
      | pointer target =>
          rw [List.map_cons, Referable.map, mergeFrom, mergeFrom,
            Document.resolveParameter_terse]
          cases d.resolveParameter target with
          | error e => rfl
          | ok p =>
              simp only [Except.map, put_terse]
              exact ih _ _

/-- The parameters of an operation lose their prose one by one. -/
theorem merged_terse (d : Document) (item : PathItem) (o : Operation)
    (context : String) :
    merged d.terse item.terse o.terse context
      = (merged d item o context).map (List.map terse) := by
  rw [merged, merged, ← mergeFrom_terse, List.map_append]
  rfl

end Parameter

-- ============================================================= operations

/-- The field of a request without prose. -/
def RequestField.terse (f : RequestField) : RequestField :=
  { f with description := none }

/-- The variant without prose. -/
def ResponseVariant.terse (v : ResponseVariant) : ResponseVariant :=
  { v with description := "" }

/-- The plan without prose. -/
def OperationPlan.terse (p : OperationPlan) : OperationPlan :=
  { p with
    summary := none, description := none
    parameters := p.parameters.map RequestField.terse
    variants := p.variants.map ResponseVariant.terse }

/-- The type of a parameter does not depend on prose. -/
theorem RequestField.typeOf_terse (c : Catalog) (owner : String)
    (p : Parameter) (shape : Shape) :
    Hoist.Agree Eq (typeOf c owner p shape)
      (typeOf c.terse owner p.terse shape.terse) := by
  rw [typeOf, typeOf, c.isScalar_terse]
  split
  · exact Hoist.render_terse shape _
  · exact .pure rfl

namespace OperationPlan

open Planning (Agree)

/-- A parameter without prose has the shape without prose. -/
theorem parameterShape_terse (c : Catalog) (p : Parameter) :
    Agree (fun x x' => x' = x.terse) (parameterShape c p)
      (parameterShape c.terse p.terse) := by
  rw [parameterShape, parameterShape, Parameter.terse]
  cases p.schema with
  | none => exact .pure rfl
  | some s => exact Planning.shape_terse c s

/-- The fields of a request lose their prose one by one. -/
theorem planParameters_terse (c : Catalog) (name : String) (i : Nat)
    (ps : List Parameter) :
    Agree (SameIn (List.map RequestField.terse)) (planParameters c name i ps)
      (planParameters c.terse name i (ps.map Parameter.terse)) := by
  induction ps generalizing i with
  | nil => exact .pure rfl
  | cons p rest ih =>
      have hrequired : RequestField.requiredIn p.terse
          = RequestField.requiredIn p := rfl
      rw [List.map_cons, planParameters_cons, planParameters_cons, hrequired]
      cases RequestField.requiredIn p with
      | none => exact ih (i + 1)
      | some required =>
          refine (parameterShape_terse c p).bind fun x _ hx => ?_
          subst hx
          refine (Agree.ofHoist (RequestField.typeOf_terse c name p x)).bind
            fun type _ htype => ?_
          subst htype
          refine (ih (i + 1)).bind fun fs fs' hfs => .pure ?_
          rw [SameIn, List.map_cons, List.map_cons, hfs]
          rfl

/-- The body of a request is planned alike. -/
theorem planBody_terse (c : Catalog) (context name : String)
    (o : Option (Referable RequestBody)) :
    Agree Eq (planBody c context name o)
      (planBody c.terse context name (o.map (Referable.map RequestBody.terse)))
    := by
  rw [planBody_eq, planBody_eq]
  refine (Planning.bodyShape_terse c _ o).bind fun found _ hfound => ?_
  subst hfound
  cases found with
  | none => exact .pure rfl
  | some r =>
      refine (Agree.ofHoist (Hoist.render_terse r.1 _)).bind
        fun type _ htype => ?_
      subst htype
      exact .pure rfl

/-- What an answer carries is planned alike. -/
theorem variantBody_terse (c : Catalog) (hint : String) (status : Nat)
    (content : Content) :
    Agree Eq (variantBody c hint status content)
      (variantBody c.terse hint status
        (Table.mapValues MediaType.terse content)) := by
  rw [variantBody, variantBody, Content.json?_terse]
  cases content.json? with
  | none => exact .pure rfl
  | some m =>
      dsimp only [Option.map_some]
      split
      · exact .pure rfl
      · refine (Planning.mediaShape_terse c m).bind fun x _ hx => ?_
        subst hx
        rw [map_eq_pure_bind, map_eq_pure_bind]
        refine (Agree.ofHoist (Hoist.render_terse x hint)).bind
          fun type _ htype => ?_
        subst htype
        exact .pure rfl

/-- The variants of a response lose their prose one by one. -/
theorem planVariants_terse (c : Catalog) (context name : String)
    (t : Table (Referable Response)) :
    Agree (SameIn (List.map ResponseVariant.terse))
      (planVariants c context name t)
      (planVariants c.terse context name
        (Table.mapValues (Referable.map Response.terse) t)) := by
  induction t with
  | nil => exact .pure rfl
  | cons e rest ih =>
      obtain ⟨key, entry⟩ := e
      rw [Table.mapValues_cons, planVariants_cons, planVariants_cons]
      cases ResponseVariant.statusOf? key with
      | none => exact ih
      | some status =>
          refine (Planning.target_terse c.document.resolveResponse_terse _
            entry).bind fun r _ hr => ?_
          subst hr
          refine (variantBody_terse c _ status r.content).bind
            fun body _ hbody => ?_
          subst hbody
          refine ih.bind fun vs vs' hvs => .pure ?_
          rw [SameIn, List.map_cons, List.map_cons, hvs]
          rfl

/-- An operation is planned as it is without its prose. -/
theorem ofEndpoint_terse (c : Catalog) (e : Document.Endpoint) :
    Agree (SameIn terse) (ofEndpoint c e) (ofEndpoint c.terse e.terse) := by
  have hmerged := Parameter.merged_terse c.document e.item e.operation
    (e.verb.name ++ " " ++ e.path)
  rw [ofEndpoint, ofEndpoint]
  dsimp only [Document.Endpoint.terse, Catalog.terse]
  rw [hmerged]
  cases Parameter.merged c.document e.item e.operation _ with
  | error err => exact .throw _
  | ok ps =>
      refine (Agree.pure (R := fun x x' => x' = x.map Parameter.terse) rfl).bind
        fun ps _ hps => ?_
      subst hps
      refine (planParameters_terse c _ 0 ps).bind fun fs fs' hfs => ?_
      refine (planBody_terse c _ _ e.operation.body).bind fun body _ hbody => ?_
      subst hbody
      refine (planVariants_terse c _ _ e.operation.responses).bind
        fun vs vs' hvs => .pure ?_
      simp only [SameIn, terse, hfs, hvs]
      rfl

end OperationPlan

-- ================================================================== server

/-- The section without prose. -/
def ServerSection.terse (s : ServerSection) : ServerSection :=
  ⟨s.plan.terse, s.hoisted.map Definition.terse⟩

namespace ServerModule

open Planning (Agree)

/-- The sections of a server lose their prose one by one. -/
theorem planSections_terse (c : Catalog) (es : List Document.Endpoint) :
    Agree (SameIn (List.map ServerSection.terse)) (planSections c es)
      (planSections c.terse (es.map Document.Endpoint.terse)) := by
  induction es with
  | nil => exact .pure rfl
  | cons e rest ih =>
      rw [planSections, List.map_cons, planSections]
      refine (OperationPlan.ofEndpoint_terse c e).bind fun p p' hp => ?_
      refine (Agree.ofHoist (Definition.drain_terse c)).bind
        fun ds ds' hds => ?_
      refine ih.bind fun ss ss' hss => .pure ?_
      simp only [SameIn, List.map_cons, ServerSection.terse, hp, hds, hss]

/-- The sections of a terse document are those of the document, but for
prose, or cannot be planned for the same reason. -/
theorem ofCatalog_terse (c : Catalog) :
    Answers (SameIn fun m => m.sections.map ServerSection.terse) (ofCatalog c)
      (ofCatalog c.terse) := by
  rw [ofCatalog, ofCatalog, Catalog.terse, Document.operations_terse]
  refine (planSections_terse c c.document.operations {}).bind
    fun r r' hr => ?_
  exact .ok hr.1

end ServerModule

-- ================================================================ webhooks

/-- The delivery without prose. -/
def Delivery.terse (d : Delivery) : Delivery :=
  { d with summary := none, definitions := d.definitions.map Definition.terse }

namespace WebhookModule

open Planning (Agree)

/-- The type of a payload is defined alike, with what it hoists. -/
theorem definePayload_terse (c : Catalog) (name : String)
    (description : Option String) (shape : Shape) :
    Hoist.Agree (SameIn (List.map Definition.terse))
      (definePayload c name description shape)
      (definePayload c.terse name description shape.terse) := by
  refine (Hoist.claim_terse name).bind fun free _ hfree => ?_
  subst hfree
  cases free with
  | false => exact .pure rfl
  | true =>
      refine (Definition.ofShape_terse c name _ _ shape).bind fun d d' hd => ?_
      refine (Definition.drain_terse c).bind fun ds ds' hds => .pure ?_
      rw [SameIn, List.map_cons, List.map_cons, hd, hds]

/-- The payload of a webhook keeps its type, and its definitions lose their prose. -/
theorem planPayload_terse (c : Catalog) (webhook base : String)
    (o : Option (Referable RequestBody)) :
    Agree (SameIn fun r => (r.1, r.2.map Definition.terse))
      (planPayload c webhook base o)
      (planPayload c.terse webhook base
        (o.map (Referable.map RequestBody.terse))) := by
  rw [planPayload_eq, planPayload_eq]
  refine (Planning.bodyShape_terse c _ o).bind fun found _ hfound => ?_
  subst hfound
  cases found with
  | none => exact .pure rfl
  | some r =>
      refine (Agree.ofHoist (definePayload_terse c _ _ r.1)).bind
        fun ds ds' hds => .pure ?_
      simp only [SameIn, hds]

/-- The deliveries of a webhook lose their prose one by one. -/
theorem planWebhook_terse (c : Catalog) (name : String) (several : Bool)
    (os : List (Verb × Operation)) :
    Agree (SameIn (List.map Delivery.terse)) (planWebhook c name several os)
      (planWebhook c.terse name several
        (os.map fun e => (e.1, e.2.terse))) := by
  induction os with
  | nil => exact .pure rfl
  | cons e rest ih =>
      obtain ⟨verb, o⟩ := e
      rw [planWebhook, List.map_cons, planWebhook]
      refine (planPayload_terse c name _ o.body).bind fun r r' hr => ?_
      obtain ⟨payload, ds⟩ := r
      obtain ⟨payload', ds'⟩ := r'
      obtain ⟨hpayload, hds⟩ := Prod.mk.inj hr
      obtain rfl : payload = payload' := hpayload
      refine ih.bind fun rs rs' hrs => .pure ?_
      simp only [SameIn, List.map_cons, Delivery.terse, hds, hrs]

/-- The deliveries of all webhooks lose their prose one by one. -/
theorem planWebhooks_terse (c : Catalog) (t : Table PathItem) :
    Agree (SameIn (List.map Delivery.terse)) (planWebhooks c t)
      (planWebhooks c.terse (Table.mapValues PathItem.terse t)) := by
  induction t with
  | nil => exact .pure rfl
  | cons e rest ih =>
      obtain ⟨name, item⟩ := e
      rw [planWebhooks, Table.mapValues_cons, planWebhooks,
        PathItem.operations_terse, List.length_map]
      refine (planWebhook_terse c name _ item.operations).bind
        fun ds ds' hds => ih.bind fun rs rs' hrs => .pure ?_
      rw [SameIn, List.map_append, List.map_append, hds, hrs]

/-- The deliveries of a terse document are those of the document, but for
prose, or cannot be planned for the same reason. -/
theorem ofCatalog?_terse (c : Catalog) :
    Answers (SameIn (Option.map fun m => m.deliveries.map Delivery.terse))
      (ofCatalog? c) (ofCatalog? c.terse) := by
  have hempty : c.terse.document.webhooks.isEmpty
      = c.document.webhooks.isEmpty := List.isEmpty_map
  rw [ofCatalog?, ofCatalog?, hempty]
  split
  · exact .ok rfl
  · refine (planWebhooks_terse c c.document.webhooks {}).bind
      fun r r' hr => ?_
    exact .ok (congrArg some hr.1)

end WebhookModule

-- ================================================================ security

/-- The security without prose. -/
def SecurityModule.terse (m : SecurityModule) : SecurityModule :=
  { m with schemes := Table.mapValues SecurityScheme.terse m.schemes }

/-- The security module loses its prose with the document. -/
theorem SecurityModule.ofDocument?_terse (d : Document) :
    ofDocument? d.terse = (ofDocument? d).map terse := by
  have hschemes : d.terse.securitySchemes
      = Table.mapValues SecurityScheme.terse d.securitySchemes := by
    rw [Document.securitySchemes, Document.shared_terse]
    rfl
  have hempty : d.terse.securitySchemes.isEmpty
      = d.securitySchemes.isEmpty := by
    rw [hschemes, Table.mapValues, List.isEmpty_map]
  rw [ofDocument?, ofDocument?, hempty, hschemes, Document.operations_terse,
    List.map_map]
  split <;> rfl

end ApiForge
