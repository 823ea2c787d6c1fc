import ApiForge.Proofs.Document.Node
import ApiForge.Proofs.Table
import Mathlib.Data.List.Forall2
/-!
Documents that differ in their schemas only.

`Schema.Alike R` says that two schemas have the same build: their members stand
in the same fields under the same names, and schemas at the same place are
related by `R`. What `R` leaves open, and nothing else, may differ.
`Document.Alike R` carries this through the parts of a document; everything
that is no schema is equal on both sides. Then the nodes of the two documents
correspond one to one, each to the one at its own place (`Alike.nodes`).
-/

namespace ApiForge

-- =============================================================== builds

/-- The same key, with values that are alike. -/
inductive Keyed {κ α : Type} (S : α → α → Prop) : κ × α → κ × α → Prop
  | intro {k : κ} {a a' : α} : S a a' → Keyed S (k, a) (k, a')

/-- What an object may hold further is switched alike, or has schemas that
are. -/
inductive Additional.Alike {α : Type} (S : α → α → Prop) :
    Additional α → Additional α → Prop
  | allowed (yes : Bool) : Additional.Alike S (.allowed yes) (.allowed yes)
  | shaped {a a' : α} : S a a' → Additional.Alike S (.shaped a) (.shaped a')

/-- The same pointer, or values that are alike. -/
inductive Referable.Alike {α : Type} (S : α → α → Prop) :
    Referable α → Referable α → Prop
  | pointer (target : String) :
      Referable.Alike S (.pointer target) (.pointer target)
  | inline {a a' : α} : S a a' → Referable.Alike S (.inline a) (.inline a')

/-- The same keys in the same order, with values that are alike. -/
def Table.Alike {α : Type} (S : α → α → Prop) (t t' : Table α) : Prop :=
  List.Forall₂ (Keyed S) t t'

/-- Two schemas are related, and so is what stands in one of them to what
stands in the other in its place. -/
inductive Schema.Alike (R : Schema → Schema → Prop) : Schema → Schema → Prop
  | intro {s s' : Schema} (node : R s s')
      (properties : List.Forall₂ (Keyed (Alike R)) s.properties s'.properties)
      (items : Option.Rel (Alike R) s.items s'.items)
      (additional :
        Option.Rel (Additional.Alike (Alike R)) s.additional s'.additional)
      (allOf : List.Forall₂ (Alike R) s.allOf s'.allOf)
      (oneOf : List.Forall₂ (Alike R) s.oneOf s'.oneOf)
      (anyOf : List.Forall₂ (Alike R) s.anyOf s'.anyOf)
      (negated : Option.Rel (Alike R) s.negated s'.negated) : Alike R s s'

variable (R : Schema → Schema → Prop)

/-- Bodies with alike schemas. -/
def MediaType.Alike (m m' : MediaType) : Prop :=
  Option.Rel (Schema.Alike R) m.schema m'.schema

/-- Parameters that differ in their schemas only. -/
structure Parameter.Alike (p p' : Parameter) : Prop where
  schema : Option.Rel (Schema.Alike R) p.schema p'.schema
  frame : p' = { p with schema := p'.schema }

/-- Request bodies that differ in their schemas only. -/
structure RequestBody.Alike (b b' : RequestBody) : Prop where
  content : Table.Alike (MediaType.Alike R) b.content b'.content
  frame : b' = { b with content := b'.content }

/-- Answers that differ in their schemas only. -/
structure Response.Alike (r r' : Response) : Prop where
  content : Table.Alike (MediaType.Alike R) r.content r'.content
  frame : r' = { r with content := r'.content }

/-- Operations that differ in their schemas only. -/
structure Operation.Alike (o o' : Operation) : Prop where
  parameters : List.Forall₂ (Referable.Alike (Parameter.Alike R))
    o.parameters o'.parameters
  body : Option.Rel (Referable.Alike (RequestBody.Alike R)) o.body o'.body
  responses : Table.Alike (Referable.Alike (Response.Alike R))
    o.responses o'.responses
  frame : o' = { o with
    parameters := o'.parameters, body := o'.body, responses := o'.responses }

/-- Paths that differ in their schemas only. -/
structure PathItem.Alike (p p' : PathItem) : Prop where
  parameters : List.Forall₂ (Referable.Alike (Parameter.Alike R))
    p.parameters p'.parameters
  operation : ∀ v, Option.Rel (Operation.Alike R) (p.operation v) (p'.operation v)
  frame : p' = { p with
    parameters := p'.parameters, operation := p'.operation }

/-- Shared entries that differ in their schemas only. -/
structure Components.Alike (c c' : Components) : Prop where
  schemas : Table.Alike (Schema.Alike R) c.schemas c'.schemas
  responses : Table.Alike (Referable.Alike (Response.Alike R))
    c.responses c'.responses
  parameters : Table.Alike (Referable.Alike (Parameter.Alike R))
    c.parameters c'.parameters
  requestBodies : Table.Alike (Referable.Alike (RequestBody.Alike R))
    c.requestBodies c'.requestBodies
  frame : c' = { c with
    schemas := c'.schemas, responses := c'.responses
    parameters := c'.parameters, requestBodies := c'.requestBodies }

/-- Documents that differ in their schemas only. -/
structure Document.Alike (d d' : Document) : Prop where
  components : Option.Rel (Components.Alike R) d.components d'.components
  paths : Option.Rel (Table.Alike (PathItem.Alike R)) d.paths d'.paths
  webhooks : Table.Alike (PathItem.Alike R) d.webhooks d'.webhooks
  frame : d' = { d with
    components := d'.components, paths := d'.paths, webhooks := d'.webhooks }

-- ========================================================== one to one

variable {R} {α β : Type} {S : α → α → Prop} {Q : β → β → Prop}

/-- Members of one list correspond to members of the other. -/
theorem exists_of_forall₂ {T : α → β → Prop} {l : List α} {l' : List β}
    (h : List.Forall₂ T l l') : ∀ a ∈ l, ∃ b ∈ l', T a b := by
  induction h with
  | nil => exact fun a ha => absurd ha List.not_mem_nil
  | @cons a b _ _ hab _ ih =>
      intro x hx
      rcases List.mem_cons.1 hx with rfl | hx
      · exact ⟨b, List.mem_cons_self .., hab⟩
      · obtain ⟨y, hy, hxy⟩ := ih x hx
        exact ⟨y, List.mem_cons_of_mem _ hy, hxy⟩

theorem forall₂_toList {T : α → β → Prop} {o : Option α} {o' : Option β}
    (h : Option.Rel T o o') : List.Forall₂ T o.toList o'.toList := by
  cases h with
  | none => exact .nil
  | some h => exact .cons h .nil

/-- What is made of members that correspond corresponds, in their order. -/
theorem forall₂_flatMap {f : α → List β} {l l' : List α}
    (h : List.Forall₂ S l l')
    (hf : ∀ a ∈ l, ∀ a', S a a' → List.Forall₂ Q (f a) (f a')) :
    List.Forall₂ Q (l.flatMap f) (l'.flatMap f) := by
  induction h with
  | nil => exact .nil
  | cons ha _ ih =>
      rw [List.flatMap_cons, List.flatMap_cons]
      exact List.rel_append (hf _ (List.mem_cons_self ..) _ ha)
        (ih fun a hmem => hf a (List.mem_cons_of_mem _ hmem))

/-- A table is alike one that it matches. -/
theorem Table.alike_iff_matched {t t' : Table α} :
    Table.Alike S t t' ↔ Table.Matched S t t' := by
  constructor
  · refine fun h => h.imp fun e e' he => ?_
    cases he with
    | intro ha => exact ⟨rfl, ha⟩
  · refine fun h => h.imp fun e e' he => ?_
    obtain ⟨k, a⟩ := e
    obtain ⟨k', a'⟩ := e'
    obtain ⟨rfl, ha⟩ := he
    exact .intro ha

/-- What is gathered from the values of like tables is related in order. -/
theorem Table.Alike.flatMap {t t' : Table α} {f : α → List β}
    (h : Table.Alike S t t')
    (hf : ∀ a a', S a a' → List.Forall₂ Q (f a) (f a')) :
    List.Forall₂ Q (t.flatMap fun e => f e.2) (t'.flatMap fun e => f e.2) :=
  (Table.alike_iff_matched.1 h).flatMap hf

/-- Like tables have the same keys. -/
theorem Table.Alike.keys {t t' : Table α} (h : Table.Alike S t t') :
    t'.keys = t.keys := by
  rw [Table.keys, Table.keys, ← List.forall₂_eq_eq_eq,
    List.forall₂_map_left_iff, List.forall₂_map_right_iff]
  refine h.flip.imp fun e' e he => ?_
  cases he with
  | intro _ => rfl

theorem Table.Alike.values {t t' : Table α} (h : Table.Alike S t t') :
    List.Forall₂ S (t.map (·.2)) (t'.map (·.2)) :=
  (Table.alike_iff_matched.1 h).values

namespace Schema

/-- What passes from the children of a schema to the schema itself holds of
every schema. -/
theorem induct {P : Schema → Prop}
    (step : ∀ s, (∀ c ∈ s.children, P c) → P s) (s : Schema) : P s :=
  step s fun c _ => induct step c
termination_by s.nodes.length
decreasing_by exact length_nodes_lt ‹_›

/-- Like settings for further properties have related schemas, or none. -/
theorem additionalSchema?_alike {o o' : Option (Additional Schema)}
    {S : Schema → Schema → Prop} (h : Option.Rel (Additional.Alike S) o o') :
    Option.Rel S (additionalSchema? o) (additionalSchema? o') := by
  cases h with
  | none => exact .none
  | some h =>
      cases h with
      | allowed yes => exact .none
      | shaped h => exact .some h

/-- Like schemas have like children, in order. -/
theorem Alike.children {s s' : Schema} (h : Alike R s s') :
    List.Forall₂ (Alike R) s.children s'.children := by
  cases h with
  | intro _ properties items additional allOf oneOf anyOf negated =>
      have hadditional := forall₂_toList (additionalSchema?_alike additional)
      exact List.rel_append (List.rel_append (List.rel_append (List.rel_append
        (List.rel_append (List.rel_append (Table.Alike.values properties)
          (forall₂_toList items)) hadditional) allOf) oneOf) anyOf)
        (forall₂_toList negated)

theorem Alike.node {s s' : Schema} (h : Alike R s s') : R s s' := by
  cases h with
  | intro node _ _ _ _ _ _ _ => exact node

/-- The nodes of alike schemas correspond. -/
theorem Alike.nodes {s s' : Schema} (h : Alike R s s') :
    List.Forall₂ R s.nodes s'.nodes := by
  induction s using induct generalizing s' with
  | step s ih =>
      rw [nodes_eq s, nodes_eq s']
      exact .cons h.node (forall₂_flatMap h.children fun c hc c' => ih c hc)

end Schema

-- ======================================================= the document

/-- Entries that are alike stand for what corresponds. -/
theorem Referable.Alike.roots {e e' : Referable α}
    {inner : α → List Schema} {Q : Schema → Schema → Prop}
    (h : Referable.Alike S e e')
    (hinner : ∀ a a', S a a' → List.Forall₂ Q (inner a) (inner a')) :
    List.Forall₂ Q (e.roots inner) (e'.roots inner) := by
  cases h with
  | pointer target => exact .nil
  | inline h => exact hinner _ _ h

theorem Content.roots_alike {c c' : Content}
    (h : Table.Alike (MediaType.Alike R) c c') :
    List.Forall₂ (Schema.Alike R) (Content.roots c) (Content.roots c') :=
  Table.Alike.flatMap h fun _ _ hm => forall₂_toList hm

theorem Parameter.roots_alike {p p' : Referable Parameter}
    (h : Referable.Alike (Parameter.Alike R) p p') :
    List.Forall₂ (Schema.Alike R) (Parameter.roots p) (Parameter.roots p') :=
  h.roots fun _ _ hp => forall₂_toList hp.schema

theorem RequestBody.roots_alike {b b' : Referable RequestBody}
    (h : Referable.Alike (RequestBody.Alike R) b b') :
    List.Forall₂ (Schema.Alike R) (RequestBody.roots b) (RequestBody.roots b') :=
  h.roots fun _ _ hb => Content.roots_alike hb.content

theorem Response.roots_alike {r r' : Referable Response}
    (h : Referable.Alike (Response.Alike R) r r') :
    List.Forall₂ (Schema.Alike R) (Response.roots r) (Response.roots r') :=
  h.roots fun _ _ hr => Content.roots_alike hr.content

/-- Like operations have like schemas, in order. -/
theorem Operation.Alike.roots {o o' : Operation} (h : Operation.Alike R o o') :
    List.Forall₂ (Schema.Alike R) o.roots o'.roots := by
  have hparameters := forall₂_flatMap h.parameters fun _ _ _ =>
    Parameter.roots_alike
  have hbody := forall₂_flatMap (forall₂_toList h.body) fun _ _ _ =>
    RequestBody.roots_alike
  have hresponses := h.responses.flatMap fun _ _ => Response.roots_alike
  exact List.rel_append (List.rel_append hparameters hbody) hresponses

/-- When what stands at each verb corresponds, then so do the operations of two
paths. -/
theorem PathItem.forall₂_operations {S : Operation → Operation → Prop}
    {p p' : PathItem}
    (h : ∀ v, Option.Rel S (p.operation v) (p'.operation v)) :
    List.Forall₂ (Keyed S) p.operations p'.operations := by
  refine List.rel_filterMap (R := Eq) ?_ (List.forall₂_refl Verb.all)
  rintro v _ rfl
  dsimp only
  match p.operation v, p'.operation v, h v with
  | _, _, .none => exact .none
  | _, _, .some ho => exact .some (.intro ho)

/-- Like items have like schemas, in order. -/
theorem PathItem.Alike.roots {p p' : PathItem} (h : PathItem.Alike R p p') :
    List.Forall₂ (Schema.Alike R) p.roots p'.roots := by
  have hparameters := forall₂_flatMap h.parameters fun _ _ _ =>
    Parameter.roots_alike
  refine List.rel_append hparameters (forall₂_flatMap (forall₂_operations h.operation) ?_)
  intro e _ e' he
  cases he with
  | intro ho => exact ho.roots

/-- Like components have like schemas, in order. -/
theorem Components.Alike.roots {c c' : Components}
    (h : Components.Alike R c c') :
    List.Forall₂ (Schema.Alike R) c.roots c'.roots := by
  have hresponses := h.responses.flatMap fun _ _ => Response.roots_alike
  have hparameters := h.parameters.flatMap fun _ _ => Parameter.roots_alike
  have hbodies := h.requestBodies.flatMap fun _ _ => RequestBody.roots_alike
  exact List.rel_append (List.rel_append
    (List.rel_append h.schemas.values hresponses) hparameters) hbodies

/-- Like documents have like schemas, in order. -/
theorem Document.Alike.roots {d d' : Document} (h : Document.Alike R d d') :
    List.Forall₂ (Schema.Alike R) d.roots d'.roots := by
  have hcomponents := forall₂_flatMap (forall₂_toList h.components)
    fun _ _ _ => Components.Alike.roots
  have hpaths : Table.Alike (PathItem.Alike R)
      (d.paths.getD []) (d'.paths.getD []) := by
    match d.paths, d'.paths, h.paths with
    | _, _, .none => exact .nil
    | _, _, .some ht => exact ht
  exact List.rel_append (List.rel_append hcomponents
    (hpaths.flatMap fun _ _ => PathItem.Alike.roots))
    (h.webhooks.flatMap fun _ _ => PathItem.Alike.roots)

/-- The nodes of documents that are alike correspond one to one. -/
theorem Document.Alike.nodes {d d' : Document} (h : Document.Alike R d d') :
    List.Forall₂ R d.nodes d'.nodes :=
  forall₂_flatMap h.roots fun _ _ _ hs => hs.nodes

end ApiForge
