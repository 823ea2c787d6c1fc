import ApiForge.Proofs.Artifact.Shadow
import ApiForge.Proofs.Shape.GrownCatalog
/-!
What is planned from one catalog is planned from another that keeps its answers.

# Scope

A catalog decides two things about a shape that is written: whether it can be
read from one text, and whether it is stored behind a pointer. Both depend on
the names that the shape mentions. So catalogs that agree on some names
(`Catalog.AgreeOn`) write the same definitions as long as nothing in the queue
mentions other names (`Scoped`), and what they hoist mentions no others either
(`passes_scoped`). The queue itself never depends on a catalog.

# Planning

`Catalog.Keeps` lists what planning asks a catalog and its document: the second
of two catalogs answers whatever the first answers. Then every step that
succeeds from the first succeeds from the second, with the same result
(`Carries`), up to the server and the webhooks as a whole (`ofCatalog_carried`,
`ofCatalog?_carried`).
-/

namespace ApiForge

open Hoist (Queues)

-- ================================================================= scope

/-- The shape of what is hoisted mentions only names with a property. -/
def Hoisted.Scoped (T : String → Prop) (p : Hoisted) : Prop :=
  ∀ n ∈ p.shape.names, T n

/-- The names that the shape of a field mentions are among those of all fields. -/
theorem Shape.names_subset_of_mem {f : Field} {fields : List Field}
    (hf : f ∈ fields) : f.shape.names ⊆ namesOfFields fields := by
  induction fields with
  | nil => exact absurd hf List.not_mem_nil
  | cons g rest ih =>
      rw [namesOfFields]
      rcases List.mem_cons.1 hf with rfl | hf
      · exact List.subset_append_left _ _
      · exact List.subset_append_of_subset_right _ (ih hf)

/-- What is hoisted out of a shape mentions nothing that the shape does not. -/
theorem Hoisted.passes_scoped (T : String → Prop) : Passes (Scoped T) := by
  intro p hp q hq n hn
  have hexpress {hint : String} {shape : Shape}
      (hq : q ∈ (Hoist.express hint shape).2) : n ∈ shape.names :=
    (Hoist.express_spec hint shape).names q hq hn
  refine hp n ?_
  unfold hoists at hq
  split at hq
  · rename_i fields hshape
    obtain ⟨f, hf, hq⟩ := List.mem_flatMap.1 hq
    rw [hshape]
    exact Shape.names_subset_of_mem hf (hexpress hq)
  · exact absurd hq List.not_mem_nil
  · exact hexpress hq

variable {T : String → Prop} {c c' : Catalog}

-- ============================================================ definitions

namespace Definition

/-- Two catalogs that agree on the names in the shapes of the fields give these the same
types. -/
theorem fieldsOf_agree (h : Catalog.AgreeOn T c c') (owner : String) (i : Nat)
    {fields : List Field} (hT : ∀ n ∈ Shape.namesOfFields fields, T n) :
    fieldsOf c' owner i fields = fieldsOf c owner i fields := by
  induction fields generalizing i with
  | nil => rfl
  | cons f rest ih =>
      rw [Shape.namesOfFields] at hT
      have hfield : Hoist.renderField c' f owner = Hoist.renderField c f owner := by
        funext hoist
        rw [Hoist.renderField, Hoist.renderField,
          h.needsBox fun n hn => hT n (List.mem_append_left _ hn)]
      rw [fieldsOf, fieldsOf, hfield,
        ih (i + 1) fun n hn => hT n (List.mem_append_right _ hn)]

/-- A shape has the same definition from both catalogs. -/
theorem ofShape_agree (h : Catalog.AgreeOn T c c') {shape : Shape}
    (hT : ∀ n ∈ shape.names, T n) (name : String)
    (description : Option String) :
    ofShape c' name description shape = ofShape c name description shape := by
  match shape with
  | .record fields =>
      rw [ofShape, ofShape, fieldsOf_agree h name 0 hT]
  | .named _ | .list _ | .map _ | .choice _ | .text | .date | .dateTime
  | .int32 | .int64 | .float32 | .float64 | .bool | .any => rfl

/-- Two catalogs that agree on the names in a shape define it alike. -/
theorem of_agree (h : Catalog.AgreeOn T c c') {shape : Shape}
    (hT : ∀ n ∈ shape.names, T n) (name : String)
    (description : Option String) :
    Definition.of c' name description shape
      = Definition.of c name description shape := by
  rw [Definition.of, Definition.of, ofShape_agree h hT]

/-- Two catalogs that agree on all names in the queue empty it alike, within the same
bound. -/
theorem drainWithin_agree (h : Catalog.AgreeOn T c c') (left : Nat)
    {hoist : Hoist} (hT : hoist.Queues (Hoisted.Scoped T)) :
    drainWithin c' left hoist = drainWithin c left hoist := by
  induction left generalizing hoist with
  | zero => rfl
  | succ left ih =>
      cases hnext : Hoist.firstFree hoist.claimed hoist.pending with
      | none => rw [drainWithin_none left hnext, drainWithin_none left hnext]
      | some found =>
          obtain ⟨p, rest⟩ := found
          obtain ⟨hmem, hrest, -⟩ := Hoist.firstFree_some hnext
          have hp : p.Scoped T := hT p hmem
          -- what is hoisted out of a queued shape mentions names of this shape only
          have hqueue : Queues (Hoisted.Scoped T)
              ⟨rest ++ p.hoists, p.name :: hoist.claimed⟩ := by
            intro q hq
            rcases List.mem_append.1 hq with hq | hq
            · exact hT q (hrest hq)
            · exact Hoisted.passes_scoped T p hp q hq
          rw [drainWithin_some left hnext, drainWithin_some left hnext,
            ih hqueue, of_agree h hp]

/-- What is queued has the same definitions from both catalogs. -/
theorem drain_agree (h : Catalog.AgreeOn T c c') {hoist : Hoist}
    (hT : hoist.Queues (Hoisted.Scoped T)) :
    drain c' hoist = drain c hoist :=
  drainWithin_agree h _ hT

end Definition

-- ============================================================== carrying

/-- From a state with `I`, a step that succeeds gives something with `P`, and
leaves a state with `I`; and the second step does the same there. -/
def Carries {σ ε α : Type} (I : σ → Prop) (P : α → Prop)
    (m m' : StateT σ (Except ε) α) : Prop :=
  Keeps I m P ∧ ∀ s r, I s → m.run s = .ok r → m'.run s = .ok r

namespace Carries

variable {σ ε α β : Type} {I : σ → Prop} {P : α → Prop} {Q : β → Prop}

theorem pure {a : α} (h : P a) :
    Carries I P (pure a : StateT σ (Except ε) α) (pure a) :=
  ⟨.pure h, fun _ _ _ hrun => hrun⟩

/-- A step that fails is carried by any other. -/
theorem throw (e : ε) (m' : StateT σ (Except ε) α) :
    Carries I P (throw e) m' :=
  ⟨.throw e, fun _ _ _ hrun => by cases hrun⟩

theorem throw_bind (e : ε) (f : α → StateT σ (Except ε) β)
    (m' : StateT σ (Except ε) β) : Carries I Q (MonadExcept.throw e >>= f) m' := by
  refine ⟨?_, fun _ _ _ hrun => by cases hrun⟩
  exact .bind (P := fun _ => False) (.throw e) fun _ hfalse => hfalse.elim

/-- Runs carry over in sequence, when the second does for every result of the first. -/
theorem bind {m m' : StateT σ (Except ε) α}
    {f f' : α → StateT σ (Except ε) β} (hm : Carries I P m m')
    (hf : ∀ a, P a → Carries I Q (f a) (f' a)) :
    Carries I Q (m >>= f) (m' >>= f') := by
  refine ⟨hm.1.bind fun a ha => (hf a ha).1, fun s r hs hrun => ?_⟩
  rw [StateT.run_bind] at hrun ⊢
  cases hfirst : m.run s with
  | error e => rw [hfirst] at hrun; cases hrun
  | ok first =>
      rw [hfirst] at hrun
      obtain ⟨hP, hI⟩ := hm.1 s first.1 first.2 hs hfirst
      rw [hm.2 s first hs hfirst]
      exact (hf first.1 hP).2 first.2 r hI hrun

theorem map {m m' : StateT σ (Except ε) α} (hm : Carries I P m m')
    (f : α → β) : Carries I (fun _ => True) (f <$> m) (f <$> m') := by
  rw [map_eq_pure_bind, map_eq_pure_bind]
  exact hm.bind fun a _ => pure trivial

end Carries

/-- The second catalog answers whatever the first does. -/
structure Catalog.Keeps (c c' : Catalog) : Prop where
  checked : c.document.Checked
  agree : Catalog.AgreeOn c.document.ExportsName c c'
  shape : ∀ s x, c.document.Mapped s → c.document.shape? s = some x →
    c'.document.shape? s = some x
  parameter : ∀ p x, c.document.resolveParameter p = .ok x →
    c'.document.resolveParameter p = .ok x
  requestBody : ∀ p x, c.document.resolveRequestBody p = .ok x →
    c'.document.resolveRequestBody p = .ok x
  response : ∀ p x, c.document.resolveResponse p = .ok x →
    c'.document.resolveResponse p = .ok x
  operations : c'.document.operations = c.document.operations
  webhooks : c'.document.webhooks = c.document.webhooks
  info : c'.document.info = c.document.info

/-- Two steps of planning, of which the second carries the first as long as
nothing in the queue mentions other than exported names. -/
abbrev Planning.CarriedFor (c : Catalog) {α : Type} (P : α → Prop)
    (m m' : Planning α) : Prop :=
  Carries (Queues (Hoisted.Scoped c.document.ExportsName)) P m m'

-- ============================================================== planning

namespace Planning

variable {α : Type} {P : α → Prop}

/-- A step that cannot fail is carried by a step that does the same. -/
theorem carried_ofHoist {m m' : StateM Hoist α}
    (hsame : ∀ h, h.Queues (Hoisted.Scoped c.document.ExportsName) → m' h = m h)
    (hkeeps : Keeps (Queues (Hoisted.Scoped c.document.ExportsName))
      (ofHoist m) P) : CarriedFor c P (ofHoist m) (ofHoist m') := by
  refine ⟨hkeeps, fun h r hh hrun => ?_⟩
  rw [← hrun]
  exact congrArg Except.ok (hsame h hh)

/-- The text of a shape asks no catalog at all. -/
theorem carried_render {shape : Shape}
    (hT : ∀ n ∈ shape.names, c.document.ExportsName n) (hint : String) :
    CarriedFor c (fun _ => True) (ofHoist (Hoist.render shape hint))
      (ofHoist (Hoist.render shape hint)) :=
  carried_ofHoist (fun _ _ => rfl) (keeps_render fun q hq n hn =>
    hT n ((Hoist.express_spec hint shape).names q hq hn))

/-- The queue is emptied alike, as it holds exported names only. -/
theorem carried_drain (h : Catalog.Keeps c c') :
    CarriedFor c (fun _ => True) (ofHoist (Definition.drain c))
      (ofHoist (Definition.drain c')) :=
  carried_ofHoist (fun _ hh => Definition.drain_agree h.agree hh)
    fun s a s' hs hrun =>
      ⟨trivial, (keeps_drain (Hoisted.passes_scoped _) s a s' hs hrun).2⟩

/-- An entry holds from the second catalog what it holds from the first. -/
theorem carried_target {resolve resolve' : String → Except ResolveError α}
    (h : ∀ p x, resolve p = .ok x → resolve' p = .ok x) (context : String)
    (e : Referable α) :
    CarriedFor c (Document.Held resolve e) (target context resolve e)
      (target context resolve' e) := by
  cases e with
  | inline a => exact .pure rfl
  | pointer p =>
      rw [target, target]
      cases hp : resolve p with
      | error e => exact .throw _ _
      | ok a =>
          rw [h p a hp]
          exact .pure hp

/-- A mapped schema has the same shape, and its names are exported. -/
theorem carried_shape (h : Catalog.Keeps c c') {s : Schema}
    (hs : c.document.Mapped s) :
    CarriedFor c (fun x => ∀ n ∈ x.names, c.document.ExportsName n)
      (shape c s) (shape c' s) := by
  rw [shape, shape]
  cases hx : c.document.shape? s with
  | none => exact .throw _ _
  | some x =>
      rw [h.shape s x hs hx]
      exact .pure (Document.names_shape? h.checked hs.covered.seen hx)

/-- A media type has the same shape, that of its schema or of any value. -/
theorem carried_mediaShape (h : Catalog.Keeps c c') {m : MediaType}
    (hm : ∀ s, m.schema = some s → c.document.Mapped s) :
    CarriedFor c (fun x => ∀ n ∈ x.names, c.document.ExportsName n)
      (mediaShape c m) (mediaShape c' m) := by
  rw [mediaShape, mediaShape]
  cases hs : m.schema with
  | none => exact .pure fun n hn => absurd hn List.not_mem_nil
  | some s => exact carried_shape h (hm s hs)

/-- The shape of a request body is found alike: its reference leads to the same body. -/
theorem carried_bodyShape (h : Catalog.Keeps c c') (context : String)
    {body : Option (Referable RequestBody)}
    (hm : ∀ e b m s, body = some e →
      Document.Held c.document.resolveRequestBody e b →
      b.content.json? = some m → m.schema = some s → c.document.Mapped s) :
    CarriedFor c
      (fun found => ∀ r ∈ found, ∀ n ∈ r.1.names, c.document.ExportsName n)
      (bodyShape c context body) (bodyShape c' context body) := by
  cases body with
  | none => exact .pure fun r hr => by cases hr
  | some e =>
      rw [bodyShape, bodyShape]
      refine (carried_target h.requestBody _ e).bind fun b hheld => ?_
      -- the JSON media type of the body decides whether there is a shape
      cases hjson : b.content.json? with
      | none => exact .pure fun r hr => by cases hr
      | some m =>
          refine (carried_mediaShape h (hm e b m · rfl hheld hjson)).bind ?_
          intro shape hT
          refine .pure fun r hr => ?_
          cases hr
          exact hT

end Planning

-- ============================================================= operations

/-- Where references that resolve keep their targets, merging that succeeds does so
again, with the same parameters. -/
theorem Parameter.mergeFrom_carried {d d' : Document}
    (h : ∀ p x, d.resolveParameter p = .ok x → d'.resolveParameter p = .ok x)
    {context : String} {i : Nat} {merged ps : List Parameter}
    {entries : List (Referable Parameter)}
    (hps : mergeFrom d context i merged entries = .ok ps) :
    mergeFrom d' context i merged entries = .ok ps := by
  induction entries generalizing i merged with
  | nil => exact hps
  | cons e rest ih =>
      cases e with
      | inline p => exact ih hps
      | pointer target =>
          rw [mergeFrom] at hps ⊢
          cases hp : d.resolveParameter target with
          | error e => rw [hp] at hps; cases hps
          | ok p =>
              rw [hp] at hps
              rw [h target p hp]
              exact ih hps

namespace OperationPlan

open Planning

/-- The shape of a parameter is that of its schema, or text where it has none. -/
theorem carried_parameterShape (h : Catalog.Keeps c c') {p : Parameter}
    (hp : ∀ s, p.schema = some s → c.document.Mapped s) :
    CarriedFor c (fun x => ∀ n ∈ x.names, c.document.ExportsName n)
      (parameterShape c p) (parameterShape c' p) := by
  rw [parameterShape, parameterShape]
  cases hs : p.schema with
  | none => exact .pure fun n hn => absurd hn List.not_mem_nil
  | some s => exact carried_shape h (hp s hs)

/-- The type of a parameter in the request is the same text. -/
theorem carried_typeOf (h : Catalog.Keeps c c') {shape : Shape}
    (hT : ∀ n ∈ shape.names, c.document.ExportsName n) (owner : String)
    (p : Parameter) :
    CarriedFor c (fun _ => True) (ofHoist (RequestField.typeOf c owner p shape))
      (ofHoist (RequestField.typeOf c' owner p shape)) := by
  unfold RequestField.typeOf
  rw [h.agree.isScalar hT]
  split
  · exact carried_render hT _
  · exact carried_ofHoist (fun _ _ => rfl)
      (keeps_ofHoist fun s hs => ⟨trivial, hs⟩)

/-- The fields of a request are planned alike, parameter by parameter. -/
theorem carried_planParameters (h : Catalog.Keeps c c') (name : String)
    (i : Nat) {ps : List Parameter}
    (hps : ∀ p ∈ ps, ∀ required, RequestField.requiredIn p = some required →
      ∀ s, p.schema = some s → c.document.Mapped s) :
    CarriedFor c (fun _ => True) (planParameters c name i ps)
      (planParameters c' name i ps) := by
  induction ps generalizing i with
  | nil => exact .pure trivial
  | cons p rest ih =>
      have hrest (i : Nat) :=
        ih i fun x hx => hps x (List.mem_cons_of_mem _ hx)
      rw [planParameters_cons, planParameters_cons]
      -- a parameter in a place that is not read is passed over by both
      cases hrequired : RequestField.requiredIn p with
      | none => exact hrest (i + 1)
      | some required =>
          refine (carried_parameterShape h
            (hps p (List.mem_cons_self ..) required hrequired)).bind ?_
          intro shape hT
          refine (carried_typeOf h hT name p).bind fun type _ => ?_
          exact (hrest (i + 1)).bind fun _ _ => .pure trivial

/-- The body of a request is planned alike. -/
theorem carried_planBody (h : Catalog.Keeps c c') (context name : String)
    {body : Option (Referable RequestBody)}
    (hm : ∀ e b m s, body = some e →
      Document.Held c.document.resolveRequestBody e b →
      b.content.json? = some m → m.schema = some s → c.document.Mapped s) :
    CarriedFor c (fun _ => True) (planBody c context name body)
      (planBody c' context name body) := by
  rw [planBody_eq, planBody_eq]
  refine (carried_bodyShape h _ hm).bind fun found hT => ?_
  cases found with
  | none => exact .pure trivial
  | some r => exact (carried_render (hT r rfl) _).bind fun _ _ => .pure trivial

/-- What an answer carries is planned alike: nothing without content, and otherwise its
shape. -/
theorem carried_variantBody (h : Catalog.Keeps c c') (hint : String)
    {status : Nat} {content : Content}
    (hm : ∀ m s, status ≠ 204 → content.json? = some m → m.schema = some s →
      c.document.Mapped s) :
    CarriedFor c (fun _ => True) (variantBody c hint status content)
      (variantBody c' hint status content) := by
  rw [variantBody, variantBody]
  cases hjson : content.json? with
  | none => exact .pure trivial
  | some m =>
      dsimp only
      split
      · exact .pure trivial
      · rename_i hbody
        refine (carried_mediaShape h fun s hs => hm m s hbody hjson hs).bind ?_
        intro shape hT
        exact (carried_render hT hint).map some

/-- The answers of an operation are planned alike, key by key. -/
theorem carried_planVariants (h : Catalog.Keeps c c') (context name : String)
    {answers : Table (Referable Response)}
    (hm : ∀ e ∈ answers, ∀ status r m s,
      ResponseVariant.statusOf? e.1 = some status → status ≠ 204 →
      Document.Held c.document.resolveResponse e.2 r →
      r.content.json? = some m → m.schema = some s → c.document.Mapped s) :
    CarriedFor c (fun _ => True) (planVariants c context name answers)
      (planVariants c' context name answers) := by
  induction answers with
  | nil => exact .pure trivial
  | cons e rest ih =>
      obtain ⟨key, entry⟩ := e
      have hrest := ih fun x hx => hm x (List.mem_cons_of_mem _ hx)
      rw [planVariants_cons, planVariants_cons]
      -- a key that is no status is passed over by both
      cases hstatus : ResponseVariant.statusOf? key with
      | none => exact hrest
      | some status =>
          refine (carried_target h.response _ entry).bind fun r hheld => ?_
          refine (carried_variantBody h _ fun m s hbody hm' hs =>
            hm _ (List.mem_cons_self ..) status r m s hstatus hbody hheld hm'
              hs).bind fun body _ => ?_
          exact hrest.bind fun _ _ => .pure trivial

/-- The plan of an operation is made from the second catalog as from the
first. -/
theorem carried_ofEndpoint (h : Catalog.Keeps c c') {e : Document.Endpoint}
    (he : e ∈ c.document.operations) :
    CarriedFor c (fun _ => True) (ofEndpoint c e) (ofEndpoint c' e) := by
  rw [ofEndpoint, ofEndpoint]
  cases hps : Parameter.merged c.document e.item e.operation
      (e.verb.name ++ " " ++ e.path) with
  | error err =>
      exact .throw_bind _ _ _
  | ok ps =>
      have hps' : Parameter.merged c'.document e.item e.operation
          (e.verb.name ++ " " ++ e.path) = .ok ps :=
        Parameter.mergeFrom_carried h.parameter hps
      rw [hps']
      refine .bind (P := fun merged => merged = ps) (.pure rfl) ?_
      rintro _ rfl
      -- parameters, then body, then answers, each under a schema that is mapped
      refine (carried_planParameters h _ 0 fun p hp required hrequired s hs =>
        .parameter he hps hp hrequired hs).bind fun parameters _ => ?_
      refine (carried_planBody h _ _ fun entry b m s hb hheld hm hs =>
        .body he hb hheld hm hs).bind fun body _ => ?_
      refine (carried_planVariants h _ _
        fun answer ha status r m s hstatus hbody hheld hm hs =>
          .response he ha hstatus hbody hheld hm hs).bind fun variants _ => ?_
      exact .pure trivial

end OperationPlan

-- ============================================================== artifacts

namespace ServerModule

open Planning

/-- The sections of the server are planned alike, operation by operation. -/
theorem carried_planSections (h : Catalog.Keeps c c')
    {es : List Document.Endpoint} (hes : ∀ e ∈ es, e ∈ c.document.operations) :
    CarriedFor c (fun _ => True) (planSections c es) (planSections c' es) := by
  induction es with
  | nil => exact .pure trivial
  | cons e rest ih =>
      rw [planSections, planSections]
      refine (OperationPlan.carried_ofEndpoint h
        (hes e (List.mem_cons_self ..))).bind fun plan _ => ?_
      refine (carried_drain h).bind fun hoisted _ => ?_
      exact (ih fun x hx => hes x (List.mem_cons_of_mem _ hx)).bind
        fun sections _ => .pure trivial

/-- The server of the second catalog is that of the first. -/
theorem ofCatalog_carried (h : Catalog.Keeps c c') {m : ServerModule}
    (hm : ofCatalog c = .ok m) : ofCatalog c' = .ok m := by
  have hall := carried_planSections h
    fun e (he : e ∈ c.document.operations) => he
  rw [ofCatalog] at hm ⊢
  cases hrun : (planSections c c.document.operations).run {} with
  | error e => rw [hrun] at hm; cases hm
  | ok r =>
      rw [hrun] at hm
      rw [h.operations, h.info,
        hall.2 {} r (fun q hq => absurd hq List.not_mem_nil) hrun]
      exact hm

end ServerModule

namespace WebhookModule

open Planning

/-- The payload of a webhook is not defined under a name that is taken. -/
theorem definePayload_taken {name : String} {hoist : Hoist}
    (hmem : name ∈ hoist.claimed) (description : Option String)
    (shape : Shape) :
    definePayload c name description shape hoist = ([], hoist) := by
  rw [definePayload, Hoist.bind_run, Hoist.claim_taken hmem]
  rfl

/-- Under a name that is free it is defined, and the queue is emptied behind it. -/
theorem definePayload_free {name : String} {hoist : Hoist}
    (hfree : name ∉ hoist.claimed) (description : Option String)
    (shape : Shape) :
    definePayload c name description shape hoist
      = let (ds, h') := Definition.drain c
          ⟨hoist.pending ++ Hoisted.hoists ⟨name, shape⟩,
            name :: hoist.claimed⟩
        (Definition.of c name description shape :: ds, h') := by
  rw [definePayload, Hoist.bind_run, Hoist.claim_free hfree]
  dsimp only
  rw [if_pos rfl, Hoist.bind_run, Definition.ofShape_eq]
  rfl

/-- Two catalogs that agree on the names in a payload and in the queue define it
alike. -/
theorem definePayload_agree (h : Catalog.AgreeOn T c c') {shape : Shape}
    (hT : ∀ n ∈ shape.names, T n) (name : String)
    (description : Option String) {hoist : Hoist}
    (hq : hoist.Queues (Hoisted.Scoped T)) :
    definePayload c' name description shape hoist
      = definePayload c name description shape hoist := by
  by_cases hmem : name ∈ hoist.claimed
  · rw [definePayload_taken hmem, definePayload_taken hmem]
  · have hqueue : Queues (Hoisted.Scoped T)
        ⟨hoist.pending ++ Hoisted.hoists ⟨name, shape⟩,
          name :: hoist.claimed⟩ := by
      intro q hq'
      rcases List.mem_append.1 hq' with hq' | hq'
      · exact hq q hq'
      · exact Hoisted.passes_scoped T ⟨name, shape⟩ hT q hq'
    rw [definePayload_free hmem, definePayload_free hmem,
      Definition.drain_agree h hqueue, Definition.of_agree h hT]

/-- A payload with exported names is defined alike. -/
theorem carried_definePayload (h : Catalog.Keeps c c') {shape : Shape}
    (hT : ∀ n ∈ shape.names, c.document.ExportsName n) (name : String)
    (description : Option String) :
    CarriedFor c (fun _ => True)
      (ofHoist (definePayload c name description shape))
      (ofHoist (definePayload c' name description shape)) := by
  refine carried_ofHoist
    (fun _ hh => definePayload_agree h.agree hT name description hh) ?_
  intro s a s' hs hrun
  have hname : Hoisted.Scoped c.document.ExportsName ⟨name, shape⟩ := hT
  exact ⟨trivial, (keeps_definePayload (Hoisted.passes_scoped _) hname
    description s a s' hs hrun).2⟩

/-- The payload of a webhook is planned alike. -/
theorem carried_planPayload (h : Catalog.Keeps c c') (webhook base : String)
    {body : Option (Referable RequestBody)}
    (hm : ∀ e b m s, body = some e →
      Document.Held c.document.resolveRequestBody e b →
      b.content.json? = some m → m.schema = some s → c.document.Mapped s) :
    CarriedFor c (fun _ => True) (planPayload c webhook base body)
      (planPayload c' webhook base body) := by
  rw [planPayload_eq, planPayload_eq]
  refine (carried_bodyShape h _ hm).bind fun found hT => ?_
  cases found with
  | none => exact .pure trivial
  | some r =>
      exact (carried_definePayload h (hT r rfl) _ _).bind fun _ _ =>
        .pure trivial

/-- A webhook is planned alike, operation by operation. -/
theorem carried_planWebhook (h : Catalog.Keeps c c')
    {webhook : String × PathItem} (hw : webhook ∈ c.document.webhooks)
    (several : Bool) {os : List (Verb × Operation)}
    (hos : ∀ o ∈ os, o ∈ webhook.2.operations) :
    CarriedFor c (fun _ => True) (planWebhook c webhook.1 several os)
      (planWebhook c' webhook.1 several os) := by
  induction os with
  | nil => exact .pure trivial
  | cons o rest ih =>
      obtain ⟨verb, o⟩ := o
      have ho := hos _ (List.mem_cons_self ..)
      rw [planWebhook, planWebhook]
      refine (carried_planPayload h webhook.1 _ fun e b m s hb hheld hm hs =>
        .payload hw ho hb hheld hm hs).bind fun planned _ => ?_
      exact (ih fun x hx => hos x (List.mem_cons_of_mem _ hx)).bind
        fun ds _ => .pure trivial

/-- All webhooks of the document are planned alike. -/
theorem carried_planWebhooks (h : Catalog.Keeps c c')
    {webhooks : Table PathItem} (hw : ∀ w ∈ webhooks, w ∈ c.document.webhooks) :
    CarriedFor c (fun _ => True) (planWebhooks c webhooks)
      (planWebhooks c' webhooks) := by
  induction webhooks with
  | nil => exact .pure trivial
  | cons w rest ih =>
      rw [planWebhooks, planWebhooks]
      refine (carried_planWebhook h (hw w (List.mem_cons_self ..)) _
        fun o ho => ho).bind fun ds _ => ?_
      exact (ih fun x hx => hw x (List.mem_cons_of_mem _ hx)).bind
        fun more _ => .pure trivial

/-- The webhooks of the second catalog are those of the first. -/
theorem ofCatalog?_carried (h : Catalog.Keeps c c') {w : Option WebhookModule}
    (hw : ofCatalog? c = .ok w) : ofCatalog? c' = .ok w := by
  have hall := carried_planWebhooks h
    fun e (he : e ∈ c.document.webhooks) => he
  rw [ofCatalog?] at hw ⊢
  rw [h.webhooks]
  by_cases hempty : c.document.webhooks.isEmpty = true
  · rw [if_pos hempty] at hw ⊢
    exact hw
  · rw [if_neg hempty] at hw ⊢
    cases hrun : (planWebhooks c c.document.webhooks).run {} with
    | error e => rw [hrun] at hw; cases hw
    | ok r =>
        rw [hrun] at hw
        rw [hall.2 {} r (fun q hq => absurd hq List.not_mem_nil) hrun]
        exact hw

end WebhookModule

end ApiForge
