import ApiForge.Proofs.Artifact.FirstCome
import ApiForge.Proofs.Outcome
/-!
Which component types the server and the webhooks shadow.

Both files import the types of the document, and a definition of their own
shadows an imported one of the same name. Nothing keeps the two apart: a request
is named after its operation, and a component may have that name
(`order_shadowed`). But the names that a file makes are few. Apart from one
fixed name, each begins with the name of an operation or of a delivery, and goes
on as `Endpoint.Offers` and `Document.OffersPayload` say. Only a component that
is exported under such a name is shadowed (`mentions_denote`).

Planning keeps what is in the queue as described (`Queues`): its steps queue
shapes under the names that are made for the operation, and hoisting makes names
longer at their end.
-/

namespace ApiForge

open Hoist (express fieldHint)

-- =============================================================== hoisting

/-- The names of what a type expression hoists begin with the hint. -/
theorem Hoist.express_names (hint : String) (shape : Shape) :
    ∀ q ∈ (express hint shape).2, ∃ rest, q.name = hint ++ rest := by
  match shape with
  | .list item =>
      intro q hq
      obtain ⟨rest, hrest⟩ := express_names (hint ++ "Item") item q hq
      exact ⟨"Item" ++ rest, hrest.trans (String.append_assoc ..)⟩
  | .map value =>
      intro q hq
      obtain ⟨rest, hrest⟩ := express_names (hint ++ "Value") value q hq
      exact ⟨"Value" ++ rest, hrest.trans (String.append_assoc ..)⟩
  | .record _ | .choice _ =>
      intro q hq
      cases List.mem_singleton.1 hq
      exact ⟨"", (String.append_empty ..).symm⟩
  | .named _ | .text | .date | .dateTime | .int32 | .int64 | .float32
  | .float64 | .bool | .any => exact fun q hq => absurd hq List.not_mem_nil

/-- So do those of what is hoisted out of a hoisted shape, with its name. -/
theorem Hoisted.hoists_names (p : Hoisted) :
    ∀ q ∈ p.hoists, ∃ rest, q.name = p.name ++ rest := by
  intro q hq
  unfold Hoisted.hoists at hq
  split at hq
  · obtain ⟨f, -, hq⟩ := List.mem_flatMap.1 hq
    obtain ⟨rest, hrest⟩ := Hoist.express_names _ _ q hq
    exact ⟨_, hrest.trans (String.append_assoc ..)⟩
  · exact absurd hq List.not_mem_nil
  · exact Hoist.express_names _ _ q hq

/-- What can be read from one text is hoisted as a choice, if at all. -/
theorem Catalog.express_scalar {c : Catalog} {shape : Shape}
    (h : c.isScalar shape = true) (hint : String) :
    ∀ q ∈ (express hint shape).2, ∃ literals, q = ⟨hint, .choice literals⟩ := by
  match shape with
  | .choice literals =>
      intro q hq
      exact ⟨literals, List.mem_singleton.1 hq⟩
  | .list _ | .map _ | .record _ | .any => cases h
  | .named _ | .text | .date | .dateTime | .int32 | .int64 | .float32
  | .float64 | .bool => exact fun q hq => absurd hq List.not_mem_nil

/-- What is in the queue satisfies `P`. -/
def Hoist.Queues (P : Hoisted → Prop) (h : Hoist) : Prop :=
  ∀ q ∈ h.pending, P q

/-- What satisfies `P` hoists what satisfies `P`. -/
def Hoisted.Passes (P : Hoisted → Prop) : Prop :=
  ∀ p, P p → ∀ q ∈ p.hoists, P q

section

variable {c : Catalog} {P : Hoisted → Prop} {α : Type} {Q : α → Prop}

namespace Definition

/-- Draining, within a bound, defines shapes of which each satisfies `P`. -/
theorem drainWithin_queues (hP : Hoisted.Passes P) {h : Hoist}
    (hq : h.Queues P) (left : Nat) :
    Hoist.Ends (drainWithin c left) h fun ds h' =>
      (∀ d ∈ ds, ∃ q, P q ∧ q.name = d.name) ∧ h'.Queues P := by
  induction left generalizing h with
  | zero => exact ⟨fun d hd => absurd hd List.not_mem_nil, hq⟩
  | succ left ih =>
      unfold Hoist.Ends
      cases hnext : Hoist.firstFree h.claimed h.pending with
      | none =>
          rw [drainWithin_none left hnext]
          exact ⟨fun d hd => absurd hd List.not_mem_nil,
            fun q hq => absurd hq List.not_mem_nil⟩
      | some found =>
          obtain ⟨p, rest⟩ := found
          obtain ⟨hmem, hrest, -⟩ := Hoist.firstFree_some hnext
          have hp : P p := hq p hmem
          -- the rest of the queue satisfies the predicate, and so does what the shape
          -- passes on
          have hqueue :
              Hoist.Queues P ⟨rest ++ p.hoists, p.name :: h.claimed⟩ := by
            intro q hmem
            rcases List.mem_append.1 hmem with hmem | hmem
            · exact hq q (hrest hmem)
            · exact hP p hp q hmem
          obtain ⟨hall, hleft⟩ := ih hqueue
          rw [drainWithin_some left hnext]
          refine ⟨fun d hd => ?_, hleft⟩
          rcases List.mem_cons.1 hd with rfl | hd
          · exact ⟨p, hp,
              (TypesModule.gives_of (c := c) p.name none p.shape).1.symm⟩
          · exact hall d hd

/-- Draining defines shapes of which each satisfies `P`. -/
theorem drain_queues (hP : Hoisted.Passes P) {h : Hoist} (hq : h.Queues P) :
    Hoist.Ends (drain c) h fun ds h' =>
      (∀ d ∈ ds, ∃ q, P q ∧ q.name = d.name) ∧ h'.Queues P :=
  drainWithin_queues hP hq _

end Definition

namespace Planning

open Hoist (Queues)

/-- A run on the queue keeps what it keeps in a plan that may fail. -/
theorem keeps_ofHoist {m : StateM Hoist α}
    (h : ∀ s, Queues P s → Hoist.Ends m s fun a s' => Q a ∧ Queues P s') :
    Keeps (Queues P) (ofHoist m) Q := by
  intro s a s' hs hrun
  obtain ⟨rfl, rfl⟩ := Prod.mk.inj (Except.ok.inj hrun)
  exact h s hs

theorem keeps_drain (hP : Hoisted.Passes P) :
    Keeps (Queues P) (ofHoist (Definition.drain c))
      fun ds => ∀ d ∈ ds, ∃ q, P q ∧ q.name = d.name :=
  keeps_ofHoist fun _ hs => Definition.drain_queues hP hs

/-- Rendering a shape queues what it hoists. -/
theorem keeps_render {shape : Shape} {hint : String}
    (h : ∀ q ∈ (express hint shape).2, P q) :
    Keeps (Queues P) (ofHoist (Hoist.render shape hint)) fun _ => True := by
  refine keeps_ofHoist fun s hs => ⟨trivial, fun q hq => ?_⟩
  rcases List.mem_append.1 hq with hq | hq
  · exact hs q hq
  · exact h q hq

/-- What is hoisted under a hint may be any shape, under any name that begins
with the hint. -/
theorem keeps_renderUnder {hint : String}
    (h : ∀ rest shape, P ⟨hint ++ rest, shape⟩) (shape : Shape) :
    Keeps (Queues P) (ofHoist (Hoist.render shape hint)) fun _ => True := by
  refine keeps_render fun q hq => ?_
  obtain ⟨rest, hname⟩ := Hoist.express_names _ _ q hq
  obtain ⟨_, inner⟩ := q
  cases hname
  exact h rest inner

/-- Following a reference queues nothing. -/
theorem keeps_target (context : String)
    (resolve : String → Except ResolveError α) (e : Referable α) :
    Keeps (Queues P) (target context resolve e) fun _ => True := by
  cases e with
  | inline a => exact .idle _
  | pointer p =>
      rw [target]
      cases resolve p with
      | ok a => exact .idle _
      | error e => exact .throw _

/-- Finding the shape of a schema queues nothing. -/
theorem keeps_shape (s : Schema) :
    Keeps (Queues P) (shape c s) fun _ => True := by
  rw [shape]
  cases c.document.shape? s with
  | some x => exact .idle _
  | none => exact .throw _

/-- Finding the shape of a media type queues nothing. -/
theorem keeps_mediaShape (m : MediaType) :
    Keeps (Queues P) (mediaShape c m) fun _ => True := by
  rw [mediaShape]
  cases m.schema with
  | some s => exact keeps_shape s
  | none => exact .idle _

/-- A shape is found only where there is a body. -/
theorem keeps_bodyShape (context : String)
    (body : Option (Referable RequestBody)) :
    Keeps (Queues P) (bodyShape c context body)
      fun found => found.isSome → body.isSome := by
  cases body with
  | none => exact .pure id
  | some entry =>
      rw [bodyShape]
      refine (keeps_target _ _ entry).bind fun b _ => ?_
      split
      · exact .pure fun _ => rfl
      · exact (keeps_mediaShape _).bind fun shape _ => .pure fun _ => rfl

end Planning

-- ============================================================= operations

namespace Document

/-- The name from which the names for an operation are made. -/
def Endpoint.name (e : Endpoint) : String :=
  Identifier.operationName e.verb e.path e.operation.id

/-- What an operation of the server offers names to: choices in the parameters
that are read from the path and the query, and what is hoisted out of its body
and out of its answers. -/
inductive Endpoint.Offers (d : Document) (e : Endpoint) : Hoisted → Prop
  | parameter {entry : Referable Parameter} {p : Parameter}
      {literals : List String} :
      entry ∈ e.item.parameters ++ e.operation.parameters →
      Held d.resolveParameter entry p →
      (RequestField.requiredIn p).isSome →
      Offers d e ⟨e.name ++ Identifier.exported p.name, .choice literals⟩
  | body {shape : Shape} (rest : String) :
      e.operation.body.isSome →
      Offers d e ⟨e.name ++ "Body" ++ rest, shape⟩
  | answer {key : String} {r : Referable Response} {shape : Shape}
      (rest : String) :
      (key, r) ∈ e.operation.responses →
      (ResponseVariant.statusOf? key).isSome →
      Offers d e ⟨e.name ++ "Response" ++ ResponseVariant.upperKey key ++ rest,
        shape⟩

/-- What is hoisted out of such a shape is again of this kind. -/
theorem Endpoint.Offers.hoists {d : Document} {e : Endpoint} {p q : Hoisted}
    (h : e.Offers d p) (hq : q ∈ p.hoists) : e.Offers d q := by
  obtain ⟨more, hname⟩ := p.hoists_names q hq
  obtain ⟨name, shape⟩ := q
  cases h with
  | parameter => exact absurd hq List.not_mem_nil
  | body rest hb =>
      rw [String.append_assoc] at hname
      subst hname
      exact .body (rest ++ more) hb
  | answer rest hr hstatus =>
      rw [String.append_assoc] at hname
      subst hname
      exact .answer (rest ++ more) hr hstatus

end Document

namespace OperationPlan

open Planning
open Hoist (Queues)

/-- Finding the shape of a parameter queues nothing. -/
theorem keeps_parameterShape (p : Parameter) :
    Keeps (Queues P) (parameterShape c p) fun _ => True := by
  rw [parameterShape]
  cases p.schema with
  | none => exact .idle _
  | some s => exact keeps_shape s

/-- The type of a request field queues choices, if anything. -/
theorem keeps_typeOf (owner : String) (p : Parameter) (shape : Shape)
    (h : ∀ literals,
      P ⟨owner ++ Identifier.exported p.name, .choice literals⟩) :
    Keeps (Queues P) (ofHoist (RequestField.typeOf c owner p shape))
      fun _ => True := by
  unfold RequestField.typeOf
  split
  · rename_i hscalar
    refine keeps_render fun q hq => ?_
    obtain ⟨literals, rfl⟩ := Catalog.express_scalar hscalar _ q hq
    exact h literals
  · exact keeps_ofHoist fun s hs => ⟨trivial, hs⟩

/-- Parameters queue choices only, under the name of the operation and their own. -/
theorem keeps_planParameters (name : String) (i : Nat) {ps : List Parameter}
    (h : ∀ p ∈ ps, (RequestField.requiredIn p).isSome → ∀ literals,
      P ⟨name ++ Identifier.exported p.name, .choice literals⟩) :
    Keeps (Queues P) (planParameters c name i ps) fun _ => True := by
  induction ps generalizing i with
  | nil => exact .idle _
  | cons p rest ih =>
      have hrest (i : Nat) :=
        ih i fun x hx => h x (List.mem_cons_of_mem _ hx)
      rw [planParameters_cons]
      cases hrequired : RequestField.requiredIn p with
      | none => exact hrest (i + 1)
      | some required =>
          have hread : (RequestField.requiredIn p).isSome := by
            rw [hrequired]
            rfl
          refine (keeps_parameterShape p).bind fun shape _ => ?_
          refine (keeps_typeOf name p shape
            (h p (List.mem_cons_self ..) hread)).bind fun _ _ => ?_
          exact (hrest (i + 1)).bind fun _ _ => .idle _

/-- A body queues shapes only whose names begin with the operation and `Body`. -/
theorem keeps_planBody (context name : String)
    {body : Option (Referable RequestBody)}
    (h : body.isSome → ∀ rest shape, P ⟨name ++ "Body" ++ rest, shape⟩) :
    Keeps (Queues P) (planBody c context name body) fun _ => True := by
  rw [planBody_eq]
  refine (keeps_bodyShape _ body).bind fun found hfound => ?_
  cases found with
  | none => exact .idle _
  | some r =>
      exact (keeps_renderUnder (h (hfound rfl)) r.1).bind fun _ _ => .idle _

/-- The type of an answer's body is rendered under its hint. -/
theorem keeps_variantBody (hint : String) (status : Nat) (content : Content)
    (h : ∀ rest shape, P ⟨hint ++ rest, shape⟩) :
    Keeps (Queues P) (variantBody c hint status content) fun _ => True := by
  rw [variantBody]
  cases content.json? with
  | none => exact .idle _
  | some m =>
      dsimp only
      split
      · exact .idle _
      · exact (keeps_mediaShape m).bind fun shape _ =>
          (keeps_renderUnder h shape).map some

/-- Answers queue shapes only whose names begin with the operation, `Response` and a
key. -/
theorem keeps_planVariants (context name : String)
    {answers : Table (Referable Response)}
    (h : ∀ e ∈ answers, (ResponseVariant.statusOf? e.1).isSome →
      ∀ rest shape,
        P ⟨name ++ "Response" ++ ResponseVariant.upperKey e.1 ++ rest, shape⟩) :
    Keeps (Queues P) (planVariants c context name answers) fun _ => True := by
  induction answers with
  | nil => exact .idle _
  | cons e rest ih =>
      obtain ⟨key, entry⟩ := e
      have hrest := ih fun x hx => h x (List.mem_cons_of_mem _ hx)
      rw [planVariants_cons]
      cases hstatus : ResponseVariant.statusOf? key with
      | none => exact hrest
      | some status =>
          have hcode : (ResponseVariant.statusOf? key).isSome := by
            rw [hstatus]
            rfl
          refine (keeps_target _ _ entry).bind fun r _ => ?_
          refine (keeps_variantBody _ status r.content
            (h _ (List.mem_cons_self ..) hcode)).bind fun _ _ => ?_
          exact hrest.bind fun _ _ => .idle _

/-- The plan of an operation has the operation's name. -/
theorem keeps_ofEndpoint (e : Document.Endpoint)
    (h : ∀ q, e.Offers c.document q → P q) :
    Keeps (Queues P) (ofEndpoint c e) fun plan => plan.name = e.name := by
  rw [ofEndpoint]
  split
  · rename_i ps hmerged
    refine .bind (P := fun merged => merged = ps) (.pure rfl) ?_
    rintro _ rfl
    refine (keeps_planParameters _ 0 fun p hp hread literals =>
      h _ ?_).bind fun _ _ => ?_
    · rcases Document.held_of_mergeFrom hmerged hp with
        hnil | ⟨entry, hentry, hheld⟩
      · exact absurd hnil List.not_mem_nil
      · exact .parameter hentry hheld hread
    refine (keeps_planBody _ _ fun hb rest shape => h _ (.body rest hb)).bind
      fun _ _ => ?_
    refine (keeps_planVariants _ _ fun x hx hstatus rest shape =>
      h _ (.answer rest hx hstatus)).bind fun _ _ => ?_
    exact .pure rfl
  · exact .bind (P := fun _ => False) (.throw _) fun _ hfalse => hfalse.elim

end OperationPlan

-- ================================================================= server

namespace ServerModule

open Planning
open Hoist (Queues)

/-- The names of the types that a server declares: those of its requests and
answers, of what it hoists, and of the handler. -/
def declared (m : ServerModule) : List String :=
  m.sections.flatMap (fun s =>
    [s.plan.name ++ "Request", s.plan.name ++ "Response"]
      ++ s.hoisted.map (·.name))
    ++ ["Handler"]

/-- Sections are named after their operations, and define what these offer
names to. -/
theorem keeps_planSections {es : List Document.Endpoint}
    (hP : Hoisted.Passes P)
    (h : ∀ e ∈ es, ∀ q, e.Offers c.document q → P q) :
    Keeps (Queues P) (planSections c es) fun sections =>
      sections.map (·.plan.name) = es.map Document.Endpoint.name
        ∧ ∀ s ∈ sections, ∀ d ∈ s.hoisted, ∃ q, P q ∧ q.name = d.name := by
  induction es with
  | nil => exact .pure ⟨rfl, fun s hs => absurd hs List.not_mem_nil⟩
  | cons e es ih =>
      rw [planSections]
      refine (OperationPlan.keeps_ofEndpoint e
        (h e (List.mem_cons_self ..))).bind
        fun plan hplan => ?_
      refine (keeps_drain hP).bind fun hoisted hhoisted => ?_
      refine (ih fun x hx => h x (List.mem_cons_of_mem _ hx)).bind
        fun sections hsections => ?_
      obtain ⟨hnames, hall⟩ := hsections
      refine .pure ⟨?_, fun s hs => ?_⟩
      · rw [List.map_cons, List.map_cons, hnames, hplan]
      · rcases List.mem_cons.1 hs with rfl | hs
        · exact hhoisted
        · exact hall s hs

/-- The sections of a server are named after the operations of the document, and
define what these offer names to. -/
theorem sections_ofCatalog {m : ServerModule} (hm : ofCatalog c = .ok m) :
    m.sections.map (·.plan.name)
        = c.document.operations.map Document.Endpoint.name
      ∧ ∀ s ∈ m.sections, ∀ d ∈ s.hoisted,
        ∃ e ∈ c.document.operations, ∃ q, e.Offers c.document q
          ∧ q.name = d.name := by
  rw [ofCatalog] at hm
  cases hrun : (planSections c c.document.operations).run {} with
  | error e => rw [hrun] at hm; cases hm
  | ok r =>
      rw [hrun] at hm
      cases hm
      have hpasses : Hoisted.Passes fun q =>
          ∃ e ∈ c.document.operations, e.Offers c.document q := by
        rintro p ⟨e, he, hp⟩ q hq
        exact ⟨e, he, hp.hoists hq⟩
      obtain ⟨⟨hnames, hhoisted⟩, -⟩ := keeps_planSections hpasses
        (fun e he q hq => ⟨e, he, hq⟩) {} r.1 r.2
        (fun q hq => absurd hq List.not_mem_nil) hrun
      refine ⟨hnames, fun s hs d hd => ?_⟩
      obtain ⟨q, ⟨e, he, hq⟩, hname⟩ := hhoisted s hs d hd
      exact ⟨e, he, q, hq, hname⟩

/-- An operation declares a request and an answer, and what it hoists. -/
theorem mem_declared {m : ServerModule} (hm : ofCatalog c = .ok m) :
    (∀ e ∈ c.document.operations,
        e.name ++ "Request" ∈ m.declared ∧ e.name ++ "Response" ∈ m.declared)
      ∧ ∀ n ∈ m.declared, n = "Handler"
        ∨ ∃ e ∈ c.document.operations, n = e.name ++ "Request"
          ∨ n = e.name ++ "Response"
          ∨ ∃ q, e.Offers c.document q ∧ q.name = n := by
  obtain ⟨hnames, hhoisted⟩ := sections_ofCatalog hm
  refine ⟨fun e he => ?_, fun n hn => ?_⟩
  · have hmem : e.name ∈ m.sections.map (·.plan.name) := by
      rw [hnames]
      exact List.mem_map_of_mem he
    obtain ⟨s, hs, hname⟩ := List.mem_map.1 hmem
    rw [← hname]
    exact ⟨List.mem_append_left _ (List.mem_flatMap.2 ⟨s, hs, by simp⟩),
      List.mem_append_left _ (List.mem_flatMap.2 ⟨s, hs, by simp⟩)⟩
  · rcases List.mem_append.1 hn with hn | hn
    -- a section declares its own two names, and those that are hoisted out of it
    · obtain ⟨s, hs, hn⟩ := List.mem_flatMap.1 hn
      have hmem : s.plan.name ∈ c.document.operations.map
          Document.Endpoint.name := by
        rw [← hnames]
        exact List.mem_map_of_mem hs
      obtain ⟨e, he, hname⟩ := List.mem_map.1 hmem
      rcases List.mem_append.1 hn with hn | hn
      · rw [← hname] at hn
        simp only [List.mem_cons, List.not_mem_nil, or_false] at hn
        exact .inr ⟨e, he, hn.imp_right .inl⟩
      · obtain ⟨x, hx, rfl⟩ := List.mem_map.1 hn
        obtain ⟨e, he, hoffered⟩ := hhoisted s hs x hx
        exact .inr ⟨e, he, .inr (.inr hoffered)⟩
    · exact .inl (List.mem_singleton.1 hn)

end ServerModule

-- =============================================================== webhooks

namespace Document

/-- What the deliveries of webhooks offer names to: payloads, and what is
hoisted out of them. -/
inductive OffersPayload (d : Document) : Hoisted → Prop
  | payload {webhook : String} {item : PathItem} {verb : Verb} {o : Operation}
      {shape : Shape} (rest : String) :
      (webhook, item) ∈ d.webhooks → (verb, o) ∈ item.operations →
      o.body.isSome →
      OffersPayload d
        ⟨WebhookModule.baseName webhook verb (1 < item.operations.length)
          ++ "Payload" ++ rest, shape⟩

/-- What is hoisted out of an offer for a payload is such an offer. -/
theorem OffersPayload.hoists {d : Document} {p q : Hoisted}
    (h : d.OffersPayload p) (hq : q ∈ p.hoists) : d.OffersPayload q := by
  obtain ⟨more, hname⟩ := p.hoists_names q hq
  obtain ⟨name, shape⟩ := q
  cases h with
  | payload rest hw ho hb =>
      rw [String.append_assoc] at hname
      subst hname
      exact .payload (rest ++ more) hw ho hb

end Document

namespace WebhookModule

open Planning
open Hoist (Queues)

/-- The names of the types that the webhooks declare: those of payloads and of
what these hoist, and that of the sender. -/
def declared (m : WebhookModule) : List String :=
  m.names ++ ["WebhookSender"]

/-- The type of a payload is defined with what it hoists. -/
theorem keeps_definePayload (hP : Hoisted.Passes P) {name : String}
    {shape : Shape} (hname : P ⟨name, shape⟩) (description : Option String) :
    Keeps (Queues P) (ofHoist (definePayload c name description shape))
      fun ds => ∀ d ∈ ds, ∃ q, P q ∧ q.name = d.name := by
  refine keeps_ofHoist fun s hs => ?_
  refine .bind (R := fun _ h => h.Queues P) ?_ fun free h hh => ?_
  · show Queues P (Hoist.claim name s).2
    rw [Hoist.claim]
    split <;> exact hs
  -- a taken name defines nothing; a free one is defined, and the queue emptied behind
  -- it
  · cases free with
    | false => exact .pure ⟨fun d hd => absurd hd List.not_mem_nil, hh⟩
    | true =>
        refine .bind (R := fun d h => d.name = name ∧ h.Queues P) ?_ ?_
        · unfold Hoist.Ends
          rw [Definition.ofShape_eq]
          refine ⟨(TypesModule.gives_of name description shape).1,
            fun q hq => ?_⟩
          rcases List.mem_append.1 hq with hq | hq
          · exact hh q hq
          · exact hP _ hname q hq
        · rintro d h ⟨rfl, hqueue⟩
          refine .bind (Definition.drain_queues hP hqueue)
            fun ds h hdrained => ?_
          obtain ⟨hall, hleft⟩ := hdrained
          refine .pure ⟨fun x hx => ?_, hleft⟩
          rcases List.mem_cons.1 hx with rfl | hx
          · exact ⟨_, hname, rfl⟩
          · exact hall x hx

/-- A payload defines names only that begin with its base name. -/
theorem keeps_planPayload (hP : Hoisted.Passes P) (webhook base : String)
    {body : Option (Referable RequestBody)}
    (h : body.isSome → ∀ rest shape, P ⟨base ++ "Payload" ++ rest, shape⟩) :
    Keeps (Queues P) (planPayload c webhook base body)
      fun planned => ∀ d ∈ planned.2, ∃ q, P q ∧ q.name = d.name := by
  have hnone : ∀ d ∈ ([] : List Definition), ∃ q, P q ∧ q.name = d.name :=
    fun d hd => absurd hd List.not_mem_nil
  rw [planPayload_eq]
  refine (keeps_bodyShape _ body).bind fun found hfound => ?_
  cases found with
  | none => exact .pure hnone
  | some r =>
      have hname := h (hfound rfl) "" r.1
      rw [String.append_empty] at hname
      exact (keeps_definePayload hP hname _).bind fun ds hds => .pure hds

/-- A webhook defines names only that begin with those of its deliveries. -/
theorem keeps_planWebhook (hP : Hoisted.Passes P) (webhook : String)
    (several : Bool) {os : List (Verb × Operation)}
    (h : ∀ o ∈ os, o.2.body.isSome → ∀ rest shape,
      P ⟨baseName webhook o.1 several ++ "Payload" ++ rest, shape⟩) :
    Keeps (Queues P) (planWebhook c webhook several os)
      fun ds => ∀ n ∈ ds.flatMap namesOf, ∃ q, P q ∧ q.name = n := by
  induction os with
  | nil => exact .pure fun n hn => absurd hn List.not_mem_nil
  | cons o os ih =>
      obtain ⟨verb, o⟩ := o
      rw [planWebhook]
      refine (keeps_planPayload hP webhook _ (h _ (List.mem_cons_self ..))).bind
        fun planned hplanned => ?_
      refine (ih fun x hx => h x (List.mem_cons_of_mem _ hx)).bind
        fun ds hds => .pure fun n hn => ?_
      rw [List.flatMap_cons] at hn
      rcases List.mem_append.1 hn with hn | hn
      · obtain ⟨d, hd, rfl⟩ := List.mem_map.1 hn
        exact hplanned d hd
      · exact hds n hn

/-- The webhooks define names only that begin with those of their deliveries. -/
theorem keeps_planWebhooks (hP : Hoisted.Passes P) {webhooks : Table PathItem}
    (h : ∀ w ∈ webhooks, ∀ o ∈ w.2.operations, o.2.body.isSome →
      ∀ rest shape, P ⟨baseName w.1 o.1 (1 < w.2.operations.length)
        ++ "Payload" ++ rest, shape⟩) :
    Keeps (Queues P) (planWebhooks c webhooks)
      fun ds => ∀ n ∈ ds.flatMap namesOf, ∃ q, P q ∧ q.name = n := by
  induction webhooks with
  | nil => exact .pure fun n hn => absurd hn List.not_mem_nil
  | cons w webhooks ih =>
      rw [planWebhooks]
      refine (keeps_planWebhook hP w.1 _ (h w (List.mem_cons_self ..))).bind
        fun ds hds => ?_
      refine (ih fun x hx => h x (List.mem_cons_of_mem _ hx)).bind
        fun more hmore => .pure fun n hn => ?_
      rw [List.flatMap_append] at hn
      exact (List.mem_append.1 hn).elim (hds n) (hmore n)

/-- The webhooks declare the sender and what deliveries offer names to. -/
theorem mem_declared {m : WebhookModule} (hm : ofCatalog? c = .ok (some m)) :
    ∀ n ∈ m.declared, n = "WebhookSender"
      ∨ ∃ q, c.document.OffersPayload q ∧ q.name = n := by
  rw [ofCatalog?] at hm
  split at hm
  · cases hm
  · cases hrun : (planWebhooks c c.document.webhooks).run {} with
    | error e => rw [hrun] at hm; cases hm
    | ok r =>
        rw [hrun] at hm
        cases hm
        obtain ⟨hnames, -⟩ := keeps_planWebhooks (c := c)
          (P := c.document.OffersPayload) (fun p hp q hq => hp.hoists hq)
          (fun w hw o ho hb rest shape => .payload rest hw ho hb) {} r.1 r.2
          (fun q hq => absurd hq List.not_mem_nil) hrun
        intro n hn
        rcases List.mem_append.1 hn with hn | hn
        · exact .inr (hnames n hn)
        · exact .inl (List.mem_singleton.1 hn)

end WebhookModule

end

-- =============================================================== shadowing

/-- No component type that a file mentions has the name of a type that the file
declares. -/
def Unshadowed (declared : List String) (types : List TypeExpr) : Prop :=
  ∀ t ∈ types, ∀ n ∈ t.components, n ∉ declared

namespace Document

variable {d : Document} {n : String}

/-- The names that the server makes: that of the handler, and for an operation
those of its request, of its answer and of what it hoists. -/
def ServerMakes (d : Document) (n : String) : Prop :=
  n = "Handler" ∨ ∃ e ∈ d.operations, n = e.name ++ "Request"
    ∨ n = e.name ++ "Response" ∨ ∃ q, e.Offers d q ∧ q.name = n

/-- The names that the webhooks make: that of the sender, and for a delivery
those of its payload and of what this hoists. -/
def WebhooksMake (d : Document) (n : String) : Prop :=
  n = "WebhookSender" ∨ ∃ q, d.OffersPayload q ∧ q.name = n

/-- A name that the server makes for an operation begins with the operation's
name. -/
theorem ServerMakes.begins (h : d.ServerMakes n) :
    n = "Handler" ∨ ∃ e ∈ d.operations, e.name.toList <+: n.toList := by
  rcases h with h | ⟨e, he, rfl | rfl | ⟨q, hq, rfl⟩⟩
  · exact .inl h
  · exact .inr ⟨e, he, by simp⟩
  · exact .inr ⟨e, he, by simp⟩
  · cases hq <;> exact .inr ⟨e, he, by simp [List.append_assoc]⟩

/-- A name that the webhooks make for a delivery begins with the delivery's
name. -/
theorem WebhooksMake.begins (h : d.WebhooksMake n) :
    n = "WebhookSender" ∨ ∃ w ∈ d.webhooks, ∃ o ∈ w.2.operations,
      (WebhookModule.baseName w.1 o.1 (1 < w.2.operations.length)).toList
        <+: n.toList := by
  rcases h with h | ⟨q, hq, rfl⟩
  · exact .inl h
  · cases hq with
    | payload rest hw ho hb =>
        exact .inr ⟨_, hw, _, ho, by simp [List.append_assoc]⟩

/-- What the component types that the server and the webhooks mention denote:
all are defined by the types of the document, and a file shadows one only with
a name that it makes. -/
structure MentionsDenote (d : Document) (c : Catalog) (m : ServerModule)
    (w : Option WebhookModule) : Prop where
  server : ∀ t ∈ m.types, ∀ n ∈ t.components,
    d.ExportsName n ∧ n ∈ TypesModule.names c
  serverDeclares : ∀ n ∈ m.declared, d.ServerMakes n
  requests : ∀ e ∈ d.operations,
    e.name ++ "Request" ∈ m.declared ∧ e.name ++ "Response" ∈ m.declared
  webhooks : ∀ v, w = some v → ∀ t ∈ v.types, ∀ n ∈ t.components,
    d.ExportsName n ∧ n ∈ TypesModule.names c
  webhooksDeclare : ∀ v, w = some v → ∀ n ∈ v.declared, d.WebhooksMake n

end Document

namespace Settings

/-- The server and the webhooks of a prepared document on which mapping ends
mention component types under names that the types define. Such a name denotes
that definition unless the file declares a type of the same name; and then the
name is one that the file makes for an operation or for a delivery, or that of
the handler or the sender. -/
theorem mentions_denote {d : Document} {p : Prepared} (h : d.prepare = .ok p)
    (hf : p.document.MapsFinitely) :
    ∃ c m w, p.document.catalog = .ok c
      ∧ ServerModule.ofCatalog c = .ok m
      ∧ WebhookModule.ofCatalog? c = .ok w
      ∧ p.document.MentionsDenote c m w
      ∧ ∀ s : Settings, ∃ artifacts, s.generate p.document = .ok artifacts
          ∧ ∀ a ∈ artifacts, a.Writes c m w := by
  have hd := Document.checked_of_prepare h
  obtain ⟨c, hc, hdocument, -⟩ := Document.catalog_ok hf
  obtain ⟨-, hnames, -⟩ := TypesModule.definitions_closed hd hf hc
  rw [← hdocument] at hd hf hnames ⊢
  obtain ⟨m, _, hm, hserver, -⟩ := ServerModule.ofCatalog_ok hd hf
  obtain ⟨w, hw, -, hdelivered⟩ := WebhookModule.ofCatalog?_ok hd hf
  obtain ⟨hrequests, hdeclares⟩ := ServerModule.mem_declared hm
  refine ⟨c, m, w, hdocument ▸ hc, hm, hw, ?_, ?_⟩
  · refine ⟨fun t ht n hn => ?_, hdeclares, hrequests, fun v hv t ht n hn => ?_,
      fun v hv => ?_⟩
    -- a component that is mentioned is exported, and exported names are defined
    · have hexported := hserver.components t ht n hn
      exact ⟨hexported, hnames n hexported⟩
    · obtain ⟨_, hdeliveries⟩ := hdelivered v hv
      have hexported := hdeliveries.closed.components t ht n hn
      exact ⟨hexported, hnames n hexported⟩
    · rw [hv] at hw
      exact WebhookModule.mem_declared hw
  · exact writes_generate (hdocument ▸ hc) hm hw

/-- The kennel mentions pets in both files, and neither shadows them: what is
made for its operation begins with `GetPets`, and for its delivery with
`PetAdded`. -/
theorem mentions_denote_kennel : ∃ p c m w, kennel.prepare = .ok p
    ∧ p.document.catalog = .ok c ∧ ServerModule.ofCatalog c = .ok m
    ∧ WebhookModule.ofCatalog? c = .ok w
    ∧ (∃ t ∈ m.types, "Pet" ∈ t.components)
    ∧ "GetPetsRequest" ∈ m.declared ∧ Unshadowed m.declared m.types
    ∧ ∃ v, w = some v ∧ "PetAddedPayload" ∈ v.declared
        ∧ Unshadowed v.declared v.types := by
  obtain ⟨p, hp, hdocument, hfinite⟩ := kennel_prepared
  obtain ⟨c, m, w, hc, hm, hw, hdenote, -⟩ := mentions_denote hp hfinite
  have hread : kennel.canonical.1.catalog.toOption.any (fun c =>
      (ServerModule.ofCatalog c).toOption.any (fun m => decide
        (∃ t ∈ m.types, "Pet" ∈ t.components))
      && (WebhookModule.ofCatalog? c).toOption.any fun w => w.any fun v =>
        decide ("PetAddedPayload" ∈ v.declared)) = true := by
    decide +kernel
  rw [← hdocument, hc] at hread
  obtain ⟨hmentions, hpayload⟩ := Bool.and_eq_true_iff.1 hread
  rw [hm] at hmentions
  rw [hw] at hpayload
  cases w with
  | none => cases hpayload
  | some v =>
      -- Pet is the only exported name, and neither file declares a name that begins so
      have hpet : ∀ n, p.document.ExportsName n → n = "Pet" := by
        rintro n ⟨e, he, rfl⟩
        rw [hdocument] at he
        cases List.mem_singleton.1 he
        decide +kernel
      have hoperations : ∀ e ∈ p.document.operations, e.name = "GetPets" := by
        rw [hdocument]
        decide +kernel
      have hdeliveries : ∀ w ∈ p.document.webhooks, ∀ o ∈ w.2.operations,
          WebhookModule.baseName w.1 o.1 (1 < w.2.operations.length)
            = "PetAdded" := by
        rw [hdocument]
        decide +kernel
      refine ⟨p, c, m, some v, hp, hc, hm, hw, of_decide_eq_true hmentions, ?_,
        fun t ht n hn hdeclared => ?_, v, rfl, of_decide_eq_true hpayload,
        fun t ht n hn hdeclared => ?_⟩
      · have hone : ∃ e, e ∈ p.document.operations := by
          rw [hdocument]
          exact ⟨_, List.mem_singleton_self _⟩
        obtain ⟨e, he⟩ := hone
        have hrequest := (hdenote.requests e he).1
        rw [hoperations e he] at hrequest
        exact hrequest
      · cases hpet n (hdenote.server t ht n hn).1
        rcases (hdenote.serverDeclares _ hdeclared).begins with h | ⟨e, he, h⟩
        · exact absurd h (by decide)
        · rw [hoperations e he] at h
          exact absurd h (by decide)
      · cases hpet n (hdenote.webhooks v rfl t ht n hn).1
        rcases (hdenote.webhooksDeclare v rfl _ hdeclared).begins with
          h | ⟨w, hw, o, ho, h⟩
        · exact absurd h (by decide)
        · rw [hdeliveries w hw o ho] at h
          exact absurd h (by decide)

-- ================================================================== order

/-- A document with an operation that has a component named like its request
for a body. -/
def order : Document where
  openapi := "3.1.0"
  info := { title := "Orders", version := "1" }
  paths := some
    [("/orders", PathItem.withOperation {} .post (some
      { id := some "createOrder"
        body := some (.inline
          { content := [("application/json",
              ⟨some (.ofPointer "#/components/schemas/CreateOrderRequest")⟩)] })
        responses := [("200", .inline {})] }))]
  components := some
    { schemas := [("CreateOrderRequest",
        { types := ["object"], properties := [("item", .ofType "string")] })] }

/-- The component `CreateOrderRequest` is shadowed where the body of the
operation mentions it: the request of the operation has this name. -/
theorem order_shadowed : ∃ p c m, order.prepare = .ok p
    ∧ p.document.MapsFinitely ∧ p.document.catalog = .ok c
    ∧ ServerModule.ofCatalog c = .ok m
    ∧ "CreateOrderRequest" ∈ TypesModule.names c
    ∧ ¬ Unshadowed m.declared m.types := by
  obtain ⟨p, hp, hdocument, hfinite⟩ :=
    Document.prepared_of_shapes (d := order) 2 (by decide +kernel)
      (by decide +kernel)
  have hd := Document.checked_of_prepare hp
  obtain ⟨c, m, _, hc, hm, -, -⟩ := planned hd hfinite
  have hread : order.canonical.1.catalog.toOption.any (fun c =>
      (ServerModule.ofCatalog c).toOption.any fun m => decide
        ("CreateOrderRequest" ∈ TypesModule.names c
          ∧ ∃ t ∈ m.types, ∃ n ∈ t.components, n ∈ m.declared)) = true := by
    decide +kernel
  rw [← hdocument, hc] at hread
  have hserver : (ServerModule.ofCatalog c).toOption.any (fun m => decide
      ("CreateOrderRequest" ∈ TypesModule.names c
        ∧ ∃ t ∈ m.types, ∃ n ∈ t.components, n ∈ m.declared)) = true := hread
  rw [hm] at hserver
  obtain ⟨hdefined, t, ht, n, hn, hdeclared⟩ := of_decide_eq_true hserver
  exact ⟨p, c, m, hp, hfinite, hc, hm, hdefined,
    fun hunshadowed => hunshadowed t ht n hn hdeclared⟩

end Settings

end ApiForge
