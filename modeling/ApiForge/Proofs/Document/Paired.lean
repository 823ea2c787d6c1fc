import ApiForge.Proofs.Document.Alike
/-!
Documents whose schemas are paired.

# Pairings

`Document.Paired S` says that two documents are built alike, and that the
schemas which stand at the same place in them, and in no other schema, are
related by `S`. What stands inside of such a schema is left to `S`. The version
that a document names is left open, since nothing but validation reads it. One
pairing can be exchanged for another if the roots bear it out (`Paired.imp`);
alike documents are paired (`Alike.paired`).

# Written out

`Schema.AlikeInline R` is a relation to pair schemas by: two schemas are alike
where they are written out. Where both are pointers, and these are equal, what
stands beside them is left open, and so is all that stands in it.
-/

namespace ApiForge

-- ============================================================= pairings

section

variable (S : Schema → Schema → Prop)

/-- Bodies with paired schemas. -/
def MediaType.Paired (m m' : MediaType) : Prop :=
  Option.Rel S m.schema m'.schema

/-- Parameters with paired schemas. -/
structure Parameter.Paired (p p' : Parameter) : Prop where
  schema : Option.Rel S p.schema p'.schema
  frame : p' = { p with schema := p'.schema }

/-- Request bodies with paired schemas. -/
structure RequestBody.Paired (b b' : RequestBody) : Prop where
  content : Table.Alike (MediaType.Paired S) b.content b'.content
  frame : b' = { b with content := b'.content }

/-- Answers with paired schemas. -/
structure Response.Paired (r r' : Response) : Prop where
  content : Table.Alike (MediaType.Paired S) r.content r'.content
  frame : r' = { r with content := r'.content }

/-- Operations with paired schemas. -/
structure Operation.Paired (o o' : Operation) : Prop where
  parameters : List.Forall₂ (Referable.Alike (Parameter.Paired S))
    o.parameters o'.parameters
  body : Option.Rel (Referable.Alike (RequestBody.Paired S)) o.body o'.body
  responses : Table.Alike (Referable.Alike (Response.Paired S))
    o.responses o'.responses
  frame : o' = { o with
    parameters := o'.parameters, body := o'.body, responses := o'.responses }

/-- Paths with paired schemas. -/
structure PathItem.Paired (p p' : PathItem) : Prop where
  parameters : List.Forall₂ (Referable.Alike (Parameter.Paired S))
    p.parameters p'.parameters
  operation : ∀ v,
    Option.Rel (Operation.Paired S) (p.operation v) (p'.operation v)
  frame : p' = { p with
    parameters := p'.parameters, operation := p'.operation }

/-- Shared entries with paired schemas. -/
structure Components.Paired (c c' : Components) : Prop where
  schemas : Table.Alike S c.schemas c'.schemas
  responses : Table.Alike (Referable.Alike (Response.Paired S))
    c.responses c'.responses
  parameters : Table.Alike (Referable.Alike (Parameter.Paired S))
    c.parameters c'.parameters
  requestBodies : Table.Alike (Referable.Alike (RequestBody.Paired S))
    c.requestBodies c'.requestBodies
  frame : c' = { c with
    schemas := c'.schemas, responses := c'.responses
    parameters := c'.parameters, requestBodies := c'.requestBodies }

/-- Documents with paired schemas; they may name different versions. -/
structure Document.Paired (d d' : Document) : Prop where
  components : Option.Rel (Components.Paired S) d.components d'.components
  paths : Option.Rel (Table.Alike (PathItem.Paired S)) d.paths d'.paths
  webhooks : Table.Alike (PathItem.Paired S) d.webhooks d'.webhooks
  frame : d' = { d with
    openapi := d'.openapi, components := d'.components, paths := d'.paths
    webhooks := d'.webhooks }

end

-- ===================================================== other relations

section

variable {α : Type} {S T : α → α → Prop}

/-- Members that correspond may be related otherwise. -/
theorem forall₂_imp {l l' : List α} (h : List.Forall₂ S l l')
    (hT : ∀ a ∈ l, ∀ a' ∈ l', S a a' → T a a') : List.Forall₂ T l l' := by
  induction h with
  | nil => exact .nil
  | cons ha _ ih =>
      refine .cons (hT _ (List.mem_cons_self ..) _ (List.mem_cons_self ..) ha)
        (ih fun a hmem a' hmem' => ?_)
      exact hT a (List.mem_cons_of_mem _ hmem) a'
        (List.mem_cons_of_mem _ hmem')

/-- The members of related options may be related otherwise. -/
theorem rel_imp {o o' : Option α} (h : Option.Rel S o o')
    (hT : ∀ a ∈ o.toList, ∀ a' ∈ o'.toList, S a a' → T a a') :
    Option.Rel T o o' := by
  cases h with
  | none => exact .none
  | some h =>
      exact .some (hT _ (List.mem_singleton_self _) _
        (List.mem_singleton_self _) h)

/-- The values of like tables may be related otherwise. -/
theorem Table.Alike.imp {t t' : Table α} (h : Table.Alike S t t')
    (hT : ∀ e ∈ t, ∀ e' ∈ t', S e.2 e'.2 → T e.2 e'.2) :
    Table.Alike T t t' := by
  refine forall₂_imp h fun e he e' he' hkeyed => ?_
  cases hkeyed with
  | intro ha => exact .intro (hT _ he _ he' ha)

/-- What stands in place may be related otherwise; references stay as they are. -/
theorem Referable.Alike.imp {e e' : Referable α} (h : Referable.Alike S e e')
    (hT : ∀ a a', e = .inline a → e' = .inline a' → S a a' → T a a') :
    Referable.Alike T e e' := by
  cases h with
  | pointer target => exact .pointer target
  | inline h => exact .inline (hT _ _ rfl rfl h)

end

section

variable {S T : Schema → Schema → Prop}

/-- The pairing `S` may be exchanged for `T` where the schemas that stand on
both sides bear it out. -/
def Exchanges (S T : Schema → Schema → Prop) (l l' : List Schema) : Prop :=
  ∀ s ∈ l, ∀ s' ∈ l', S s s' → T s s'

theorem Exchanges.subset {l l' k k' : List Schema} (h : Exchanges S T l l')
    (hk : k ⊆ l) (hk' : k' ⊆ l') : Exchanges S T k k' :=
  fun s hs s' hs' => h s (hk hs) s' (hk' hs')

/-- What is exchanged in a whole list is so in the lists that it joins. -/
theorem Exchanges.member {α : Type} {l l' : List α} {f : α → List Schema}
    (h : Exchanges S T (l.flatMap f) (l'.flatMap f)) {a a' : α} (ha : a ∈ l)
    (ha' : a' ∈ l') : Exchanges S T (f a) (f a') :=
  h.subset (fun _ hs => List.mem_flatMap.2 ⟨a, ha, hs⟩)
    fun _ hs => List.mem_flatMap.2 ⟨a', ha', hs⟩

theorem Exchanges.left {k k' l l' : List Schema}
    (h : Exchanges S T (k ++ l) (k' ++ l')) : Exchanges S T k k' :=
  h.subset (List.subset_append_left ..) (List.subset_append_left ..)

theorem Exchanges.right {k k' l l' : List Schema}
    (h : Exchanges S T (k ++ l) (k' ++ l')) : Exchanges S T l l' :=
  h.subset (List.subset_append_right ..) (List.subset_append_right ..)

/-- The schemas of paired contents may be paired otherwise. -/
theorem Content.paired_imp {c c' : Content}
    (h : Table.Alike (MediaType.Paired S) c c')
    (hT : Exchanges S T (Content.roots c) (Content.roots c')) :
    Table.Alike (MediaType.Paired T) c c' :=
  h.imp fun _ he _ he' hm => rel_imp hm (hT.member he he')

/-- The schemas of paired parameters may be paired otherwise. -/
theorem Parameter.paired_imp {p p' : Referable Parameter}
    (h : Referable.Alike (Parameter.Paired S) p p')
    (hT : Exchanges S T (Parameter.roots p) (Parameter.roots p')) :
    Referable.Alike (Parameter.Paired T) p p' := by
  refine h.imp fun a a' he he' hp => ⟨rel_imp hp.schema ?_, hp.frame⟩
  subst he he'
  exact hT

/-- The schemas of paired bodies may be paired otherwise. -/
theorem RequestBody.paired_imp {b b' : Referable RequestBody}
    (h : Referable.Alike (RequestBody.Paired S) b b')
    (hT : Exchanges S T (RequestBody.roots b) (RequestBody.roots b')) :
    Referable.Alike (RequestBody.Paired T) b b' := by
  refine h.imp fun a a' he he' hb =>
    ⟨Content.paired_imp hb.content ?_, hb.frame⟩
  subst he he'
  exact hT

/-- The schemas of paired responses may be paired otherwise. -/
theorem Response.paired_imp {r r' : Referable Response}
    (h : Referable.Alike (Response.Paired S) r r')
    (hT : Exchanges S T (Response.roots r) (Response.roots r')) :
    Referable.Alike (Response.Paired T) r r' := by
  refine h.imp fun a a' he he' hr =>
    ⟨Content.paired_imp hr.content ?_, hr.frame⟩
  subst he he'
  exact hT

/-- The schemas of paired operations may be paired otherwise. -/
theorem Operation.Paired.imp {o o' : Operation} (h : Operation.Paired S o o')
    (hT : Exchanges S T o.roots o'.roots) : Operation.Paired T o o' where
  parameters := forall₂_imp h.parameters fun _ hp _ hp' hpp =>
    Parameter.paired_imp hpp (hT.left.left.member hp hp')
  body := rel_imp h.body fun _ hb _ hb' hbb =>
    RequestBody.paired_imp hbb (hT.left.right.member hb hb')
  responses := h.responses.imp fun _ hr _ hr' hrr =>
    Response.paired_imp hrr (hT.right.member hr hr')
  frame := h.frame

/-- The schemas of paired items may be paired otherwise. -/
theorem PathItem.Paired.imp {p p' : PathItem} (h : PathItem.Paired S p p')
    (hT : Exchanges S T p.roots p'.roots) : PathItem.Paired T p p' where
  parameters := forall₂_imp h.parameters fun _ hp _ hp' hpp =>
    Parameter.paired_imp hpp (hT.left.member hp hp')
  operation := by
    intro v
    have listed {p : PathItem} {o : Operation} (ho : o ∈ (p.operation v).toList) :
        (v, o) ∈ p.operations := by
      rw [Option.mem_toList] at ho
      exact List.mem_filterMap.2 ⟨v, v.mem_all, by rw [ho]; rfl⟩
    exact rel_imp (h.operation v) fun o ho o' ho' hoo =>
      hoo.imp (hT.right.member (listed ho) (listed ho'))
  frame := h.frame

/-- The schemas of paired components may be paired otherwise. -/
theorem Components.Paired.imp {c c' : Components}
    (h : Components.Paired S c c') (hT : Exchanges S T c.roots c'.roots) :
    Components.Paired T c c' where
  schemas := h.schemas.imp fun _ hs _ hs' hss =>
    hT.left.left.left _ (List.mem_map_of_mem hs) _ (List.mem_map_of_mem hs')
      hss
  responses := h.responses.imp fun _ hr _ hr' hrr =>
    Response.paired_imp hrr (hT.left.left.right.member hr hr')
  parameters := h.parameters.imp fun _ hp _ hp' hpp =>
    Parameter.paired_imp hpp (hT.left.right.member hp hp')
  requestBodies := h.requestBodies.imp fun _ hb _ hb' hbb =>
    RequestBody.paired_imp hbb (hT.right.member hb hb')
  frame := h.frame

/-- Paired documents are paired otherwise if their roots are. -/
theorem Document.Paired.imp {d d' : Document} (h : Document.Paired S d d')
    (hT : Exchanges S T d.roots d'.roots) : Document.Paired T d d' where
  components := rel_imp h.components fun _ hc _ hc' hcc =>
    hcc.imp (hT.left.left.member hc hc')
  paths := rel_imp h.paths fun t ht t' ht' htt =>
    htt.imp fun _ hp _ hp' hpp => hpp.imp (hT.left.right.member
      (by rw [Option.mem_toList.1 ht]; exact hp)
      (by rw [Option.mem_toList.1 ht']; exact hp'))
  webhooks := h.webhooks.imp fun _ hp _ hp' hpp =>
    hpp.imp (hT.right.member hp hp')
  frame := h.frame

end

-- ======================================================= alike is paired

section

variable {R : Schema → Schema → Prop}

theorem Parameter.Alike.paired {p p' : Referable Parameter}
    (h : Referable.Alike (Parameter.Alike R) p p') :
    Referable.Alike (Parameter.Paired (Schema.Alike R)) p p' :=
  h.imp fun _ _ _ _ hp => ⟨hp.schema, hp.frame⟩

theorem RequestBody.Alike.paired {b b' : Referable RequestBody}
    (h : Referable.Alike (RequestBody.Alike R) b b') :
    Referable.Alike (RequestBody.Paired (Schema.Alike R)) b b' :=
  h.imp fun _ _ _ _ hb => ⟨hb.content, hb.frame⟩

theorem Response.Alike.paired {r r' : Referable Response}
    (h : Referable.Alike (Response.Alike R) r r') :
    Referable.Alike (Response.Paired (Schema.Alike R)) r r' :=
  h.imp fun _ _ _ _ hr => ⟨hr.content, hr.frame⟩

/-- Operations that are alike are paired by what their schemas have in common. -/
theorem Operation.Alike.paired {o o' : Operation} (h : Operation.Alike R o o') :
    Operation.Paired (Schema.Alike R) o o' where
  parameters := forall₂_imp h.parameters fun _ _ _ _ => Parameter.Alike.paired
  body := rel_imp h.body fun _ _ _ _ => RequestBody.Alike.paired
  responses := h.responses.imp fun _ _ _ _ => Response.Alike.paired
  frame := h.frame

/-- Items that are alike are paired by what their schemas have in common. -/
theorem PathItem.Alike.paired {p p' : PathItem} (h : PathItem.Alike R p p') :
    PathItem.Paired (Schema.Alike R) p p' where
  parameters := forall₂_imp h.parameters fun _ _ _ _ => Parameter.Alike.paired
  operation := fun v => rel_imp (h.operation v) fun _ _ _ _ ho => ho.paired
  frame := h.frame

/-- Components that are alike are paired by what their schemas have in common. -/
theorem Components.Alike.paired {c c' : Components}
    (h : Components.Alike R c c') : Components.Paired (Schema.Alike R) c c' where
  schemas := h.schemas
  responses := h.responses.imp fun _ _ _ _ => Response.Alike.paired
  parameters := h.parameters.imp fun _ _ _ _ => Parameter.Alike.paired
  requestBodies := h.requestBodies.imp fun _ _ _ _ => RequestBody.Alike.paired
  frame := h.frame

/-- Documents that differ in the nodes of their schemas only are paired. -/
theorem Document.Alike.paired {d d' : Document} (h : Document.Alike R d d') :
    Document.Paired (Schema.Alike R) d d' where
  components := rel_imp h.components fun _ _ _ _ hc => hc.paired
  paths := rel_imp h.paths fun _ _ _ _ ht => ht.imp fun _ _ _ _ hp => hp.paired
  webhooks := h.webhooks.imp fun _ _ _ _ hp => hp.paired
  frame := by
    rw [h.frame]

end

-- =========================================================== written out

namespace Schema

/-- Two schemas that are no pointers are related, and so is what stands in one
of them to what stands in the other in its place; or they are the same
pointer. -/
inductive AlikeInline (R : Schema → Schema → Prop) : Schema → Schema → Prop
  | pointer {s s' : Schema} {p : String} (hs : s.pointer = some p)
      (hs' : s'.pointer = some p) : AlikeInline R s s'
  | inline {s s' : Schema} (hs : s.pointer = none) (hs' : s'.pointer = none)
      (node : R s s')
      (properties :
        List.Forall₂ (Keyed (AlikeInline R)) s.properties s'.properties)
      (items : Option.Rel (AlikeInline R) s.items s'.items)
      (additional : Option.Rel (Additional.Alike (AlikeInline R))
        s.additional s'.additional)
      (allOf : List.Forall₂ (AlikeInline R) s.allOf s'.allOf)
      (oneOf : List.Forall₂ (AlikeInline R) s.oneOf s'.oneOf)
      (anyOf : List.Forall₂ (AlikeInline R) s.anyOf s'.anyOf)
      (negated : Option.Rel (AlikeInline R) s.negated s'.negated) :
      AlikeInline R s s'

/-- The schemas that stand in two schemas stand in the same fields, under the
same names, and are related. -/
structure Members (S : Schema → Schema → Prop) (s s' : Schema) : Prop where
  properties : Table.Alike S s.properties s'.properties
  items : Option.Rel S s.items s'.items
  additional : Option.Rel (Additional.Alike S) s.additional s'.additional
  allOf : List.Forall₂ S s.allOf s'.allOf
  oneOf : List.Forall₂ S s.oneOf s'.oneOf
  anyOf : List.Forall₂ S s.anyOf s'.anyOf
  negated : Option.Rel S s.negated s'.negated

variable {R R' S T : Schema → Schema → Prop} {s s' : Schema}

/-- What corresponds in two schemas may be related otherwise. -/
theorem Members.imp (h : Members S s s')
    (hT : ∀ c ∈ s.children, ∀ c', S c c' → T c c') : Members T s s' := by
  have hmem {c : Schema} (hc : c ∈ s.children) (c' : Schema) := hT c hc c'
  simp only [children, List.mem_append] at hmem
  constructor
  case properties =>
    exact h.properties.imp fun e he e' _ =>
      hmem (by simp [List.mem_map_of_mem he]) e'.2
  case items => exact rel_imp h.items fun c hc c' _ => hmem (by simp [hc]) c'
  case additional =>
    refine rel_imp h.additional fun a ha a' ha' haa => ?_
    cases haa with
    | allowed yes => exact .allowed yes
    | shaped hc =>
        rw [Option.mem_toList] at ha
        exact .shaped (hmem (by simp [ha, additionalSchema?]) _ hc)
  case allOf =>
    exact forall₂_imp h.allOf fun c hc c' _ => hmem (by simp [hc]) c'
  case oneOf =>
    exact forall₂_imp h.oneOf fun c hc c' _ => hmem (by simp [hc]) c'
  case anyOf =>
    exact forall₂_imp h.anyOf fun c hc c' _ => hmem (by simp [hc]) c'
  case negated =>
    exact rel_imp h.negated fun c hc c' _ => hmem (by simp [hc]) c'

/-- Induction on schemas that are alike where they are written out: inside of
them the members are alike, and have the property. -/
theorem AlikeInline.induct {P : Schema → Schema → Prop}
    (pointer : ∀ s s' p, s.pointer = some p → s'.pointer = some p → P s s')
    (inline : ∀ s s', s.pointer = none → s'.pointer = none → R s s' →
      Members (fun c c' => AlikeInline R c c' ∧ P c c') s s' → P s s') :
    ∀ {s s'}, AlikeInline R s s' → P s s' := by
  intro s s' h
  induction s using Schema.induct generalizing s' with
  | step s ih =>
      cases h with
      | pointer hs hs' => exact pointer _ _ _ hs hs'
      | inline hs hs' node properties items additional allOf oneOf anyOf
          negated =>
          have members : Members (AlikeInline R) s s' :=
            ⟨properties, items, additional, allOf, oneOf, anyOf, negated⟩
          exact inline _ _ hs hs' node
            (members.imp fun c hc c' hcc => ⟨hcc, ih c hc hcc⟩)

/-- Schemas without reference are alike in place when they and their members are. -/
theorem AlikeInline.of_members (hs : s.pointer = none)
    (hs' : s'.pointer = none) (node : R s s')
    (h : Members (AlikeInline R) s s') : AlikeInline R s s' :=
  .inline hs hs' node h.properties h.items h.additional h.allOf h.oneOf
    h.anyOf h.negated

/-- Schemas that are alike where they are written out are so for a weaker
relation of nodes. -/
theorem AlikeInline.mono (hR : ∀ s s', R s s' → R' s s')
    (h : AlikeInline R s s') : AlikeInline R' s s' := by
  refine AlikeInline.induct ?pointer ?inline h
  case pointer => exact fun s s' p hs hs' => .pointer hs hs'
  case inline =>
    exact fun s s' hs hs' node members => .of_members hs hs' (hR _ _ node)
      (members.imp fun _ _ _ hcc => hcc.2)

/-- Alike schemas are alike where they are written out, if related nodes have
the same pointer. -/
theorem Alike.alikeInline
    (hR : ∀ s s', R s s' → s.pointer = s'.pointer ∧ R' s s')
    (h : Alike R s s') : AlikeInline R' s s' := by
  induction s using Schema.induct generalizing s' with
  | step s ih =>
      obtain ⟨node, properties, items, additional, allOf, oneOf, anyOf,
        negated⟩ := h
      obtain ⟨hpointer, hnode⟩ := hR _ _ node
      cases hs : s.pointer with
      | some p => exact .pointer hs (hpointer ▸ hs)
      | none =>
          have members : Members (Alike R) s s' :=
            ⟨properties, items, additional, allOf, oneOf, anyOf, negated⟩
          exact .of_members hs (hpointer ▸ hs) hnode
            (members.imp fun c hc c' hcc => ih c hc hcc)

end Schema

end ApiForge
