import ApiForge.Proofs.Artifact.Hoisting
import ApiForge.Proofs.Artifact.Reached
import ApiForge.Proofs.Shape.Named
/-!
Planning succeeds, and what it writes is closed.

Planning may fail, and hoists; `Planning.Ends` says of a step that it does not
fail, and of what it leaves behind that it is as described. Every step of the
server and of the webhooks is taken through once, for a checked document on
which mapping ends: a reference that a step resolves has been checked, a shape
that it asks for is there, and what it writes keeps the invariant of hoisting
(`planSections_ends`, `planWebhooks_ends`). The types of the document take the
same way without the chance to fail (`define_ends`).
-/

namespace ApiForge

open Hoist

-- =============================================================== types

namespace TypesModule

variable {T : String → Prop} {written : List TypeExpr} {defined : List String}
  {c : Catalog} {h : Hoist}

/-- Claiming a name takes it if it is free. -/
theorem claim_ends (hc : Closed T written defined h) (name : String) :
    Hoist.Ends (claim name) h fun free h' =>
      h'.pending = h.pending ∧
        if free then Closed T written (defined ++ [name]) h'
        else Closed T written defined h' ∧ name ∈ defined := by
  unfold Hoist.Ends claim
  split
  · rename_i htaken
    exact ⟨rfl, hc, (hc.claimed name).1 (List.contains_iff_mem.1 htaken)⟩
  · rename_i hfree
    exact ⟨rfl, hc.claim fun hmem => hfree (List.contains_iff_mem.2 hmem)⟩

/-- Defining entries defines the name of each, and leaves nothing queued. -/
theorem define_ends (hc : Closed T written defined h) (hp : h.pending = [])
    {entries : List CatalogEntry}
    (hT : ∀ e ∈ entries, ∀ n ∈ e.shape.names, T n) :
    Hoist.Ends (define c entries) h fun ds h' =>
      Closed T (written ++ ds.flatMap Definition.types)
          (defined ++ ds.map (·.name)) h'
        ∧ h'.pending = []
        ∧ ∀ e ∈ entries, e.name ∈ defined ++ ds.map (·.name) := by
  induction entries generalizing written defined h with
  | nil =>
      refine .pure ⟨?_, hp, fun e he => absurd he List.not_mem_nil⟩
      rw [List.flatMap_nil, List.map_nil, List.append_nil, List.append_nil]
      exact hc
  | cons e rest ih =>
      have hrest := fun x hx => hT x (List.mem_cons_of_mem _ hx)
      rw [define]
      refine .bind (claim_ends hc e.name) fun free h₁ ⟨hp₁, hc₁⟩ => ?_
      rw [hp] at hp₁
      -- a free name is defined, and with it whatever is hoisted out of it; a taken one
      -- has been defined before
      cases free with
      | true =>
          refine .bind (Definition.ofShape_ends hc₁
            (hT e (List.mem_cons_self ..)) e.name e.schema.ownDescription) ?_
          rintro d h₂ ⟨hname, hc₂, -⟩
          refine .bind (Definition.drain_ends hc₂) fun hoisted h₃ ⟨hc₃, hp₃⟩ => ?_
          refine .bind (ih hc₃ hp₃ hrest) fun ds h₄ ⟨hc₄, hp₄, hall⟩ => ?_
          have hnames : defined ++ [e.name] ++ hoisted.map (·.name)
                ++ ds.map (·.name)
              = defined ++ (d :: hoisted ++ ds).map (·.name) := by
            simp [hname]
          rw [hnames] at hc₄ hall
          refine .pure ⟨?_, hp₄, fun x hx => ?_⟩
          · simpa using hc₄
          · rcases List.mem_cons.1 hx with rfl | hx
            · rw [← hname]
              simp
            · exact hall x hx
      | false =>
          obtain ⟨hc₁, hmem⟩ := hc₁
          refine .mono (ih hc₁ hp₁ hrest) fun ds h₂ ⟨hc₂, hp₂, hall⟩ => ?_
          refine ⟨hc₂, hp₂, fun x hx => ?_⟩
          rcases List.mem_cons.1 hx with rfl | hx
          · exact List.mem_append_left _ hmem
          · exact hall x hx

end TypesModule

-- ============================================================ planning

namespace Planning

variable {α β : Type} {h : Hoist} {m : Planning α} {Q R : α → Hoist → Prop}

/-- From a state a step of planning succeeds, with an answer and in a state as
described. -/
def Ends (m : Planning α) (h : Hoist) (Q : α → Hoist → Prop) : Prop :=
  ∃ a h', m h = .ok (a, h') ∧ Q a h'

theorem Ends.pure {a : α} (hQ : Q a h) : Ends (pure a) h Q :=
  ⟨a, h, rfl, hQ⟩

/-- Runs that end, one after the other, are a run that ends. -/
theorem Ends.bind {f : α → Planning β} {Q : β → Hoist → Prop}
    (hm : Ends m h R) (hf : ∀ a h', R a h' → Ends (f a) h' Q) :
    Ends (m >>= f) h Q := by
  obtain ⟨a, h', hrun, hR⟩ := hm
  obtain ⟨b, h'', hnext, hQ⟩ := hf a h' hR
  refine ⟨b, h'', ?_, hQ⟩
  show (m h >>= fun r => f r.1 r.2) = _
  rw [hrun]
  exact hnext

theorem Ends.mono (hm : Ends m h R) (hQ : ∀ a h', R a h' → Q a h') :
    Ends m h Q := by
  obtain ⟨a, h', hrun, hR⟩ := hm
  exact ⟨a, h', hrun, hQ a h' hR⟩

/-- What is made of a step's answer is described by that answer. -/
theorem Ends.map {f : α → β} (hm : Ends m h R) :
    Ends (f <$> m) h fun b h' => ∃ a, f a = b ∧ R a h' := by
  obtain ⟨a, h', hrun, hR⟩ := hm
  refine ⟨f a, h', ?_, a, rfl, hR⟩
  show (m h >>= fun r => Pure.pure (f r.1, r.2)) = _
  rw [hrun]
  rfl

/-- A step that cannot fail. -/
theorem Ends.ofHoist {m : StateM Hoist α} (hm : Hoist.Ends m h Q) :
    Ends (ofHoist m) h Q :=
  ⟨(m h).1, (m h).2, rfl, hm⟩

/-- What an entry holds is found if its pointer, if it is one, resolves. -/
theorem target_ends {e : Referable α} {context : String}
    {resolve : String → Except ResolveError α} {a : α}
    (ha : Document.Held resolve e a) :
    Ends (target context resolve e) h fun b h' => a = b ∧ h = h' := by
  cases e with
  | inline b => exact .pure ⟨ha.symm, rfl⟩
  | pointer p =>
      have hp : resolve p = .ok a := ha
      rw [target, hp]
      exact .pure ⟨rfl, rfl⟩

end Planning

section

variable {c : Catalog} {written : List TypeExpr} {defined : List String}
  {h : Hoist}

/-- What has been written mentions exported names only, and is closed up to the
queue. -/
abbrev Hoist.ClosedFor (c : Catalog) :
    List TypeExpr → List String → Hoist → Prop :=
  Hoist.Closed c.document.ExportsName

namespace Planning

/-- The shape of a mapped schema is found, and mentions exported names only. -/
theorem shape_ends (hd : c.document.Checked) (hf : c.document.MapsFinitely)
    {s : Schema} (hs : c.document.Mapped s) :
    Ends (shape c s) h fun shape h' =>
      h = h' ∧ ∀ n ∈ shape.names, c.document.ExportsName n := by
  obtain ⟨x, hx⟩ := hf.shape? hs
  rw [shape, hx]
  exact .pure ⟨rfl, Document.names_shape? hd hs.covered.seen hx⟩

/-- So is that of a body. -/
theorem mediaShape_ends (hd : c.document.Checked)
    (hf : c.document.MapsFinitely) {m : MediaType}
    (hm : ∀ s, m.schema = some s → c.document.Mapped s) :
    Ends (mediaShape c m) h fun shape h' =>
      h = h' ∧ ∀ n ∈ shape.names, c.document.ExportsName n := by
  rw [mediaShape]
  cases hs : m.schema with
  | none => exact .pure ⟨rfl, fun n hn => absurd hn List.not_mem_nil⟩
  | some s => exact shape_ends hd hf (hm s hs)

/-- The shape of the JSON form of a request body, and whether there must be a
body. Operations and webhooks plan their bodies from it. -/
def bodyShape (c : Catalog) (context : String) :
    Option (Referable RequestBody) → Planning (Option (Shape × Bool))
  | none => return none
  | some entry => do
    let body ← target context c.document.resolveRequestBody entry
    match body.content.json? with
    | none => return none
    | some m =>
      let shape ← mediaShape c m
      return some (shape, body.required)

/-- The shape of a body is found, and mentions exported names only. -/
theorem bodyShape_ends (hd : c.document.Checked)
    (hf : c.document.MapsFinitely) (context : String)
    {body : Option (Referable RequestBody)}
    (hb : ∀ e, body = some e → c.document.HasRequestBody e)
    (hm : ∀ e b m s, body = some e →
      Document.Held c.document.resolveRequestBody e b →
      b.content.json? = some m → m.schema = some s → c.document.Mapped s) :
    Ends (bodyShape c context body) h fun found h' =>
      h = h' ∧ ∀ r ∈ found, ∀ n ∈ r.1.names, c.document.ExportsName n := by
  cases body with
  | none => exact .pure ⟨rfl, fun r hr => by cases hr⟩
  | some e =>
      obtain ⟨b, hheld⟩ := hd.requestBody (hb e rfl)
      rw [bodyShape]
      refine .bind (target_ends hheld) ?_
      rintro _ _ ⟨rfl, rfl⟩
      cases hjson : b.content.json? with
      | none => exact .pure ⟨rfl, fun r hr => by cases hr⟩
      | some m =>
          refine .bind (mediaShape_ends hd hf (hm e b m · rfl hheld hjson)) ?_
          rintro shape _ ⟨rfl, hT⟩
          refine .pure ⟨rfl, fun r hr => ?_⟩
          cases hr
          exact hT

end Planning

namespace OperationPlan

open Planning

/-- The type expressions of a plan. -/
def types (p : OperationPlan) : List TypeExpr :=
  p.parameters.map (·.type) ++ (p.body.map (·.1)).toList
    ++ p.variants.filterMap (·.body)

/-- The shape of a parameter; without a schema it is a text. -/
def parameterShape (c : Catalog) (p : Parameter) : Planning Shape :=
  match p.schema with
  | some s => shape c s
  | none => return .text

/-- The first of several parameters is planned before the others. -/
theorem planParameters_cons (c : Catalog) (name : String) (i : Nat)
    (p : Parameter) (rest : List Parameter) :
    planParameters c name i (p :: rest)
      = match RequestField.requiredIn p with
        | none => planParameters c name (i + 1) rest
        | some required => do
          let shape ← parameterShape c p
          let type ← ofHoist (RequestField.typeOf c name p shape)
          let fields ← planParameters c name (i + 1) rest
          return ⟨RequestField.identOf p.name i, p.name, p.place, required,
            type, p.description⟩ :: fields := by
  rw [planParameters, parameterShape]
  cases RequestField.requiredIn p with
  | none => rfl
  | some required => cases p.schema <;> rfl

/-- The type of a request field is written. -/
theorem typeOf_ends (hc : ClosedFor c written defined h) {shape : Shape}
    (hT : ∀ n ∈ shape.names, c.document.ExportsName n) (owner : String)
    (p : Parameter) :
    Hoist.Ends (RequestField.typeOf c owner p shape) h fun e h' =>
      ClosedFor c (written ++ [e]) defined h' := by
  unfold RequestField.typeOf
  split
  · exact (render_ends hc hT _).mono fun e h' he => he.1
  · refine .pure ?_
    have htext : Expresses .text (.builtin "String") [] :=
      .plain (by decide)
    have hwrite := hc.write htext fun n hn => absurd hn List.not_mem_nil
    rw [List.append_nil] at hwrite
    exact hwrite

/-- The shape of a parameter is found, and mentions exported names only. -/
theorem parameterShape_ends (hd : c.document.Checked)
    (hf : c.document.MapsFinitely) {p : Parameter}
    (hp : ∀ s, p.schema = some s → c.document.Mapped s) :
    Ends (parameterShape c p) h fun shape h' =>
      h = h' ∧ ∀ n ∈ shape.names, c.document.ExportsName n := by
  rw [parameterShape]
  cases hs : p.schema with
  | none => exact .pure ⟨rfl, fun n hn => absurd hn List.not_mem_nil⟩
  | some s => exact shape_ends hd hf (hp s hs)

/-- The parameters of an operation are planned. -/
theorem planParameters_ends (hd : c.document.Checked)
    (hf : c.document.MapsFinitely) (hc : ClosedFor c written defined h)
    (name : String) (i : Nat) {ps : List Parameter}
    (hps : ∀ p ∈ ps, ∀ required, RequestField.requiredIn p = some required →
      ∀ s, p.schema = some s → c.document.Mapped s) :
    Ends (planParameters c name i ps) h fun fields h' =>
      ClosedFor c (written ++ fields.map (·.type)) defined h' := by
  induction ps generalizing i written h with
  | nil =>
      refine .pure ?_
      rw [List.map_nil, List.append_nil]
      exact hc
  | cons p rest ih =>
      have hrest := fun x hx => hps x (List.mem_cons_of_mem _ hx)
      rw [planParameters_cons]
      -- a parameter in a place that is not read adds no field
      cases hrequired : RequestField.requiredIn p with
      | none => exact ih hc (i + 1) hrest
      | some required =>
          refine .bind (parameterShape_ends hd hf
            (hps p (List.mem_cons_self ..) required hrequired)) ?_
          rintro shape _ ⟨rfl, hT⟩
          refine .bind (.ofHoist (typeOf_ends hc hT name p)) ?_
          intro type h₁ hc₁
          refine .bind (ih hc₁ (i + 1) hrest) fun fields h₂ hc₂ => .pure ?_
          rw [List.map_cons, List.append_cons]
          exact hc₂

/-- The body of an operation is rendered from its shape. -/
theorem planBody_eq (c : Catalog) (context name : String)
    (body : Option (Referable RequestBody)) :
    planBody c context name body = do
      match ← bodyShape c (context ++ " request body") body with
      | none => return none
      | some (shape, required) =>
        let type ← ofHoist (Hoist.render shape (name ++ "Body"))
        return some (type, required) := by
  cases body with
  | none => rfl
  | some entry =>
      rw [planBody, bodyShape, bind_assoc]
      refine congrArg (target _ _ entry >>= ·) (funext fun b => ?_)
      cases b.content.json? with
      | none => rfl
      | some m =>
          rw [bind_assoc]
          rfl

/-- The body of an operation is planned. -/
theorem planBody_ends (hd : c.document.Checked) (hf : c.document.MapsFinitely)
    (hc : ClosedFor c written defined h) (context name : String)
    {body : Option (Referable RequestBody)}
    (hb : ∀ e, body = some e → c.document.HasRequestBody e)
    (hm : ∀ e b m s, body = some e →
      Document.Held c.document.resolveRequestBody e b →
      b.content.json? = some m → m.schema = some s → c.document.Mapped s) :
    Ends (planBody c context name body) h fun planned h' =>
      ClosedFor c (written ++ (planned.map (·.1)).toList) defined h' := by
  rw [planBody_eq]
  refine .bind (bodyShape_ends hd hf _ hb hm) ?_
  rintro found _ ⟨rfl, hT⟩
  cases found with
  | none =>
      refine .pure ?_
      rw [Option.map_none, Option.toList_none, List.append_nil]
      exact hc
  | some r =>
      refine .bind (.ofHoist (render_ends hc (hT r rfl) _)) ?_
      intro type h₁ ⟨hc₁, _⟩
      exact .pure hc₁

/-- The type of an answer's body, where it has one. -/
def variantBody (c : Catalog) (hint : String) (status : Nat)
    (content : Content) : Planning (Option TypeExpr) :=
  match content.json? with
  | none => return none
  | some m =>
    if status = 204 then return none
    else do
      let shape ← mediaShape c m
      some <$> ofHoist (Hoist.render shape hint)

/-- The first of several answers is planned before the others. -/
theorem planVariants_cons (c : Catalog) (context name key : String)
    (entry : Referable Response) (rest : Table (Referable Response)) :
    planVariants c context name ((key, entry) :: rest)
      = match ResponseVariant.statusOf? key with
        | none => planVariants c context name rest
        | some status => do
          let r ← target (context ++ " response " ++ key)
            c.document.resolveResponse entry
          let body ← variantBody c
            (name ++ "Response" ++ ResponseVariant.upperKey key) status
            r.content
          let variants ← planVariants c context name rest
          return ⟨"Status" ++ ResponseVariant.upperKey key, status, body,
            r.description⟩ :: variants := by
  rw [planVariants]
  cases ResponseVariant.statusOf? key with
  | none => rfl
  | some status =>
      refine congrArg (target _ _ entry >>= ·) (funext fun r => ?_)
      rw [variantBody]
      cases r.content.json? with
      | none => rfl
      | some m =>
          dsimp only
          split
          · rfl
          · rw [bind_assoc]

/-- The type of an answer's body is written. -/
theorem variantBody_ends (hd : c.document.Checked)
    (hf : c.document.MapsFinitely) (hc : ClosedFor c written defined h)
    (hint : String) {status : Nat} {content : Content}
    (hm : ∀ m s, status ≠ 204 → content.json? = some m → m.schema = some s →
      c.document.Mapped s) :
    Ends (variantBody c hint status content) h fun body h' =>
      ClosedFor c (written ++ body.toList) defined h' := by
  have hnone : ClosedFor c (written ++ Option.toList none) defined h :=
    (List.append_nil written).symm ▸ hc
  rw [variantBody]
  cases hjson : content.json? with
  | none => exact .pure hnone
  | some m =>
      dsimp only
      split
      · exact .pure hnone
      · rename_i hbody
        refine .bind (mediaShape_ends hd hf fun s hs =>
          hm m s hbody hjson hs) ?_
        rintro shape _ ⟨rfl, hT⟩
        refine .mono (.map (.ofHoist (render_ends hc hT hint))) ?_
        rintro _ h₁ ⟨type, rfl, hc₁, -⟩
        exact hc₁

/-- The answers of an operation are planned. -/
theorem planVariants_ends (hd : c.document.Checked)
    (hf : c.document.MapsFinitely) (hc : ClosedFor c written defined h)
    (context name : String) {answers : Table (Referable Response)}
    (hr : ∀ e ∈ answers, c.document.HasResponse e.2)
    (hm : ∀ e ∈ answers, ∀ status r m s,
      ResponseVariant.statusOf? e.1 = some status → status ≠ 204 →
      Document.Held c.document.resolveResponse e.2 r →
      r.content.json? = some m → m.schema = some s → c.document.Mapped s) :
    Ends (planVariants c context name answers) h fun variants h' =>
      ClosedFor c (written ++ variants.filterMap (·.body)) defined h' := by
  induction answers generalizing written h with
  | nil =>
      refine .pure ?_
      rw [List.filterMap_nil, List.append_nil]
      exact hc
  | cons e rest ih =>
      obtain ⟨key, entry⟩ := e
      have hrest {written : List TypeExpr} {h : Hoist}
          (hc : ClosedFor c written defined h) := ih hc
        (fun x hx => hr x (List.mem_cons_of_mem _ hx))
        (fun x hx => hm x (List.mem_cons_of_mem _ hx))
      rw [planVariants_cons]
      -- a key that is no status adds no variant
      cases hstatus : ResponseVariant.statusOf? key with
      | none => exact hrest hc
      | some status =>
          -- the reference of an answer resolves, since all references do
          obtain ⟨r, hheld⟩ := hd.response (hr _ (List.mem_cons_self ..))
          refine .bind (target_ends hheld) ?_
          rintro _ _ ⟨rfl, rfl⟩
          refine .bind (variantBody_ends hd hf hc _ fun m s hbody hm' hs =>
            hm _ (List.mem_cons_self ..) status r m s hstatus hbody hheld hm'
              hs) fun body h₁ hc₁ => ?_
          refine .bind (hrest hc₁) fun variants h₂ hc₂ => .pure ?_
          rw [List.append_assoc] at hc₂
          cases body <;> exact hc₂

/-- An operation is planned. -/
theorem ofEndpoint_ends (hd : c.document.Checked)
    (hf : c.document.MapsFinitely) (hc : ClosedFor c written defined h)
    {e : Document.Endpoint} (he : e ∈ c.document.operations) :
    Ends (ofEndpoint c e) h fun plan h' =>
      ClosedFor c (written ++ plan.types) defined h' := by
  obtain ⟨ps, hps⟩ := hd.merged he (e.verb.name ++ " " ++ e.path)
  have hoperation := Document.hasOperation_of_path he
  rw [ofEndpoint, hps]
  refine .bind (.pure (a := ps) (Q := fun a h' => ps = a ∧ h = h')
    ⟨rfl, rfl⟩) ?_
  rintro _ _ ⟨rfl, rfl⟩
  -- parameters, body and answers, one after the other
  refine .bind (planParameters_ends hd hf hc _ 0
    fun p hp required hrequired s hs =>
      .parameter he hps hp hrequired hs) fun parameters h₁ hc₁ => ?_
  refine .bind (planBody_ends hd hf hc₁ _ _
    (fun entry hb => hoperation.body hb)
    fun entry b m s hb hheld hm hs => .body he hb hheld hm hs)
    fun body h₂ hc₂ => ?_
  refine .bind (planVariants_ends hd hf hc₂ _ _
    (fun answer ha => hoperation.response ha)
    fun answer ha status r m s hstatus hbody hheld hm hs =>
      .response he ha hstatus hbody hheld hm hs) fun variants h₃ hc₃ => ?_
  refine .pure ?_
  rw [types, ← List.append_assoc, ← List.append_assoc]
  exact hc₃

end OperationPlan

-- ============================================================ artifacts

namespace ServerModule

open Planning

/-- The type expressions of a section. -/
def typesOf (s : ServerSection) : List TypeExpr :=
  s.plan.types ++ s.hoisted.flatMap Definition.types

/-- The sections of a server are planned, each with what it hoists. -/
theorem planSections_ends (hd : c.document.Checked)
    (hf : c.document.MapsFinitely) (hc : ClosedFor c written defined h)
    (hp : h.pending = []) {es : List Document.Endpoint}
    (hes : ∀ e ∈ es, e ∈ c.document.operations) :
    Ends (planSections c es) h fun sections h' =>
      ClosedFor c (written ++ sections.flatMap typesOf)
          (defined ++ sections.flatMap fun s => s.hoisted.map (·.name)) h'
        ∧ h'.pending = [] := by
  induction es generalizing written defined h with
  | nil =>
      refine .pure ⟨?_, hp⟩
      rw [List.flatMap_nil, List.flatMap_nil, List.append_nil, List.append_nil]
      exact hc
  | cons e rest ih =>
      rw [planSections]
      refine .bind (OperationPlan.ofEndpoint_ends hd hf hc
        (hes e (List.mem_cons_self ..))) fun plan h₁ hc₁ => ?_
      -- the queue is empty again before the next operation begins
      refine .bind (.ofHoist (Definition.drain_ends hc₁)) ?_
      intro hoisted h₂ ⟨hc₂, hp₂⟩
      refine .bind (ih hc₂ hp₂ fun x hx => hes x (List.mem_cons_of_mem _ hx)) ?_
      intro sections h₃ ⟨hc₃, hp₃⟩
      refine .pure ⟨?_, hp₃⟩
      simp only [List.flatMap_cons, typesOf, ← List.append_assoc]
      exact hc₃

end ServerModule

namespace WebhookModule

open Planning

/-- The type expressions in the definitions of a delivery. -/
def typesOf (d : Delivery) : List TypeExpr :=
  d.definitions.flatMap Definition.types

/-- The names that a delivery defines. -/
def namesOf (d : Delivery) : List String :=
  d.definitions.map (·.name)

/-- What the deliveries leave behind: their definitions are closed up to the
queue, which is empty, and each payload is of a type that has been defined. -/
structure Delivered (c : Catalog) (written : List TypeExpr)
    (defined : List String) (ds : List Delivery) (h : Hoist) : Prop where
  closed : ClosedFor c (written ++ ds.flatMap typesOf)
    (defined ++ ds.flatMap namesOf) h
  empty : h.pending = []
  payload : ∀ d ∈ ds, ∀ p, d.payload = some p →
    p.1 ∈ defined ++ ds.flatMap namesOf

/-- Without a delivery nothing changes. -/
theorem delivered_nil (hc : ClosedFor c written defined h)
    (hp : h.pending = []) : Delivered c written defined [] h where
  closed := by
    rw [List.flatMap_nil, List.flatMap_nil, List.append_nil, List.append_nil]
    exact hc
  empty := hp
  payload := fun _ hd => absurd hd List.not_mem_nil

/-- One delivery. -/
theorem delivered_one {d : Delivery}
    (hc : ClosedFor c (written ++ typesOf d) (defined ++ namesOf d) h)
    (hp : h.pending = [])
    (hpayload : ∀ p, d.payload = some p → p.1 ∈ defined ++ namesOf d) :
    Delivered c written defined [d] h where
  closed := by
    rw [List.flatMap_singleton, List.flatMap_singleton]
    exact hc
  empty := hp
  payload := by
    intro x hx
    rw [List.mem_singleton.1 hx, List.flatMap_singleton]
    exact hpayload

/-- Deliveries behind deliveries. -/
theorem Delivered.append {ds more : List Delivery} {h' : Hoist}
    (hd : Delivered c written defined ds h)
    (hmore : Delivered c (written ++ ds.flatMap typesOf)
      (defined ++ ds.flatMap namesOf) more h') :
    Delivered c written defined (ds ++ more) h' where
  closed := by
    rw [List.flatMap_append, List.flatMap_append, ← List.append_assoc,
      ← List.append_assoc]
    exact hmore.closed
  empty := hmore.empty
  payload := by
    intro d hmem p hp
    rw [List.flatMap_append, ← List.append_assoc]
    rcases List.mem_append.1 hmem with hmem | hmem
    · exact List.mem_append_left _ (hd.payload d hmem p hp)
    · exact hmore.payload d hmem p hp

/-- Defines the type of a payload with what it hoists, unless its name is
taken. -/
def definePayload (c : Catalog) (name : String) (description : Option String)
    (shape : Shape) : StateM Hoist (List Definition) := do
  if ← Hoist.claim name then
    let d ← Definition.ofShape c name description shape
    return d :: (← Definition.drain c)
  else return []

/-- The type of a payload is defined, unless its name is taken. -/
theorem definePayload_ends (hc : ClosedFor c written defined h)
    (hp : h.pending = []) {shape : Shape}
    (hT : ∀ n ∈ shape.names, c.document.ExportsName n) (name : String)
    (description : Option String) :
    Hoist.Ends (definePayload c name description shape) h fun ds h' =>
      ClosedFor c (written ++ ds.flatMap Definition.types)
          (defined ++ ds.map (·.name)) h'
        ∧ h'.pending = [] ∧ name ∈ defined ++ ds.map (·.name) := by
  refine .bind (TypesModule.claim_ends hc name) fun free h₁ ⟨hp₁, hc₁⟩ => ?_
  rw [hp] at hp₁
  cases free with
  | true =>
      refine .bind (Definition.ofShape_ends hc₁ hT _ _) ?_
      rintro d h₂ ⟨hname, hc₂, -⟩
      refine .bind (Definition.drain_ends hc₂) fun ds h₃ ⟨hc₃, hp₃⟩ => ?_
      refine .pure ⟨?_, hp₃, ?_⟩
      · simpa [hname] using hc₃
      · simp [hname]
  | false =>
      refine .pure ⟨?_, hp₁, List.mem_append_left _ hc₁.2⟩
      rw [List.flatMap_nil, List.map_nil, List.append_nil, List.append_nil]
      exact hc₁.1

/-- The type of a payload is defined from the shape of the body. -/
theorem planPayload_eq (c : Catalog) (webhook base : String)
    (body : Option (Referable RequestBody)) :
    planPayload c webhook base body = do
      match ← bodyShape c ("webhook " ++ webhook ++ " request body") body with
      | none => return (none, [])
      | some (shape, required) =>
        let definitions ← ofHoist (definePayload c (base ++ "Payload")
          (some ("Payload of the \x60" ++ webhook ++ "\x60 webhook.")) shape)
        return (some (base ++ "Payload", required), definitions) := by
  cases body with
  | none => rfl
  | some entry =>
      rw [planPayload, bodyShape, bind_assoc]
      refine congrArg (target _ _ entry >>= ·) (funext fun b => ?_)
      cases b.content.json? with
      | none => rfl
      | some m =>
          rw [bind_assoc]
          rfl

/-- The payload of a delivery is planned, and its type's name is defined. -/
theorem planPayload_ends (hd : c.document.Checked)
    (hf : c.document.MapsFinitely) (hc : ClosedFor c written defined h)
    (hp : h.pending = []) (webhook base : String)
    {body : Option (Referable RequestBody)}
    (hb : ∀ e, body = some e → c.document.HasRequestBody e)
    (hm : ∀ e b m s, body = some e →
      Document.Held c.document.resolveRequestBody e b →
      b.content.json? = some m → m.schema = some s → c.document.Mapped s) :
    Ends (planPayload c webhook base body) h fun planned h' =>
      ∀ verb summary, Delivered c written defined
        [⟨verb, base, planned.1, summary, planned.2⟩] h' := by
  -- without a payload nothing is written or defined
  have hnone (verb : Verb) (summary : Option String) :
      Delivered c written defined [⟨verb, base, none, summary, []⟩] h := by
    refine delivered_one ?_ hp fun p hnone => by cases hnone
    rw [typesOf, namesOf, List.flatMap_nil, List.map_nil, List.append_nil,
      List.append_nil]
    exact hc
  rw [planPayload_eq]
  refine .bind (bodyShape_ends hd hf _ hb hm) ?_
  rintro found _ ⟨rfl, hT⟩
  cases found with
  | none => exact .pure hnone
  | some r =>
      refine .bind (.ofHoist (definePayload_ends hc hp (hT r rfl) _ _)) ?_
      intro ds h₁ ⟨hc₁, hp₁, hname⟩
      refine .pure fun verb summary => delivered_one hc₁ hp₁ ?_
      intro p hpayload
      cases hpayload
      exact hname

/-- The deliveries of a webhook are planned. -/
theorem planWebhook_ends (hd : c.document.Checked)
    (hf : c.document.MapsFinitely) (hc : ClosedFor c written defined h)
    (hp : h.pending = []) {webhook : String × PathItem}
    (hw : webhook ∈ c.document.webhooks) (several : Bool)
    {os : List (Verb × Operation)} (hos : ∀ o ∈ os, o ∈ webhook.2.operations) :
    Ends (planWebhook c webhook.1 several os) h
      (Delivered c written defined) := by
  induction os generalizing written defined h with
  | nil => exact .pure (delivered_nil hc hp)
  | cons o rest ih =>
      obtain ⟨verb, o⟩ := o
      have ho := hos _ (List.mem_cons_self ..)
      rw [planWebhook]
      refine .bind (planPayload_ends hd hf hc hp webhook.1 _
        (fun e hb => ((Document.hasItem_of_webhook hw).operation ho).body hb)
        fun e b m s hb hheld hm hs => .payload hw ho hb hheld hm hs) ?_
      intro planned h₁ hone
      have hfirst := hone verb (o.summary.or o.description)
      refine .bind (ih hfirst.closed hfirst.empty
        fun x hx => hos x (List.mem_cons_of_mem _ hx)) fun ds h₂ hds => ?_
      exact .pure (hfirst.append hds)

/-- The deliveries of all webhooks are planned. -/
theorem planWebhooks_ends (hd : c.document.Checked)
    (hf : c.document.MapsFinitely) (hc : ClosedFor c written defined h)
    (hp : h.pending = []) {webhooks : Table PathItem}
    (hw : ∀ w ∈ webhooks, w ∈ c.document.webhooks) :
    Ends (planWebhooks c webhooks) h (Delivered c written defined) := by
  induction webhooks generalizing written defined h with
  | nil => exact .pure (delivered_nil hc hp)
  | cons w rest ih =>
      rw [planWebhooks]
      refine .bind (planWebhook_ends hd hf hc hp (hw w (List.mem_cons_self ..))
        _ fun o ho => ho) fun ds h₁ hds => ?_
      refine .bind (ih hds.closed hds.empty
        fun x hx => hw x (List.mem_cons_of_mem _ hx)) fun more h₂ hmore => ?_
      exact .pure (hds.append hmore)

end WebhookModule

-- ======================================================= whole artifacts

/-- The server of a checked document is planned, and closed. -/
theorem ServerModule.ofCatalog_ok (hd : c.document.Checked)
    (hf : c.document.MapsFinitely) :
    ∃ m h, ServerModule.ofCatalog c = .ok m
      ∧ ClosedFor c (m.sections.flatMap typesOf)
          (m.sections.flatMap fun s => s.hoisted.map (·.name)) h
      ∧ h.pending = [] := by
  obtain ⟨sections, h, hrun, hc, hp⟩ := planSections_ends hd hf closed_nil rfl
    fun e (he : e ∈ c.document.operations) => he
  refine ⟨⟨c.document.info.title, sections⟩, h, ?_, hc, hp⟩
  rw [ofCatalog, StateT.run, hrun]
  rfl

/-- So are the webhooks, if any are declared. -/
theorem WebhookModule.ofCatalog?_ok (hd : c.document.Checked)
    (hf : c.document.MapsFinitely) :
    ∃ w, WebhookModule.ofCatalog? c = .ok w
      ∧ w.isSome = !c.document.webhooks.isEmpty
      ∧ ∀ m, w = some m → ∃ h, Delivered c [] [] m.deliveries h := by
  rw [ofCatalog?]
  split
  · rename_i hempty
    exact ⟨none, rfl, by simp [hempty], fun m hm => by cases hm⟩
  · rename_i hsome
    obtain ⟨ds, h, hrun, hds⟩ := planWebhooks_ends hd hf closed_nil rfl
      fun w (hw : w ∈ c.document.webhooks) => hw
    refine ⟨some ⟨ds⟩, ?_, by simp [hsome], fun m hm => ?_⟩
    · rw [StateT.run, hrun]
      rfl
    · cases hm
      exact ⟨h, hds⟩

end

namespace Document

variable {d : Document}

/-- An entry of the catalog is a component schema with its exported name and
its shape. -/
def Catalogued (d : Document) (e : String × Schema) (entry : CatalogEntry) :
    Prop :=
  entry.name = Identifier.typeName e.1 "Schema"
    ∧ d.shape? e.2 = some entry.shape

/-- The entries of the catalog are those of the component schemas, in order. -/
theorem forall₂_catalogued {entries : List CatalogEntry}
    (hentries : Catalog.entries? d = some entries) :
    List.Forall₂ d.Catalogued d.schemas entries := by
  refine (forall₂_mapM hentries).imp fun e entry hentry => ?_
  obtain ⟨shape, hshape, hentry⟩ := Option.bind_eq_some_iff.1 hentry
  cases hentry
  dsimp only [Catalogued]
  exact ⟨rfl, hshape⟩

/-- Catalog entries are found just when every component schema has a shape. -/
theorem entries?_isSome_iff :
    (Catalog.entries? d).isSome ↔ ∀ e ∈ d.schemas, (d.shape? e.2).isSome := by
  rw [Catalog.entries?, mapM_isSome_iff]
  refine forall₂_congr fun e _ => ?_
  show ((d.shape? e.2).bind fun shape => some (CatalogEntry.mk _ _ _ _)).isSome
    ↔ _
  cases d.shape? e.2 <;> rfl

/-- The catalog of a document on which mapping ends has an entry for each
component schema, and no others. -/
theorem catalog_ok (hf : d.MapsFinitely) :
    ∃ c, d.catalog = .ok c ∧ c.document = d
      ∧ (∀ e ∈ d.schemas, ∃ entry ∈ c.entries, d.Catalogued e entry)
      ∧ ∀ entry ∈ c.entries, ∃ e ∈ d.schemas, d.Catalogued e entry := by
  have hall : (Catalog.entries? d).isSome := by
    refine entries?_isSome_iff.2 fun e he => ?_
    obtain ⟨shape, hshape⟩ := hf.shape? (.component he)
    rw [hshape]
    rfl
  obtain ⟨entries, hentries⟩ := Option.isSome_iff_exists.1 hall
  have hcatalogued := forall₂_catalogued hentries
  refine ⟨⟨d, entries, Catalog.namesWhere entries Catalog.isRecordShape,
    Catalog.namesWhere entries Shape.isScalar⟩, ?_, rfl,
    exists_of_forall₂ hcatalogued, exists_of_forall₂ hcatalogued.flip⟩
  rw [catalog, Catalog.ofDocument?, hentries]
  rfl

end Document

end ApiForge
