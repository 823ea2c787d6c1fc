import ApiForge.Proofs.Document.Ordered
import ApiForge.Proofs.Document.Reading
/-!
The properties of schemas stand in key order.

`Schema.InOrder` says so of a schema and of all that stand in it. A table comes
from `Table.ofList` wherever one is read, so every schema of a loaded document is
in order (`inOrder_of_load`), and the canonical form changes no key
(`inOrder_canonical`).
-/

namespace ApiForge

namespace Schema

/-- All tables of properties inside a schema stand in key order. -/
def InOrder (s : Schema) : Prop :=
  ∀ q ∈ s.nodes, Table.Sorted q.properties

variable {s c : Schema}

theorem InOrder.properties (h : s.InOrder) : Table.Sorted s.properties :=
  h s (mem_nodes_self s)

theorem InOrder.child (h : s.InOrder) (hc : c ∈ s.children) : c.InOrder := by
  intro q hq
  have hmem : c ∈ s.nodes := children_mem_nodes (mem_nodes_self s) hc
  exact h q (nodes_trans hmem hq)

/-- A schema is in order when its properties are sorted and its children are in
order. -/
theorem inOrder_iff : s.InOrder
    ↔ Table.Sorted s.properties ∧ ∀ c ∈ s.children, c.InOrder := by
  constructor
  · exact fun h => ⟨h.properties, fun c hc => h.child hc⟩
  · rintro ⟨hsorted, hchildren⟩ q hq
    rw [nodes_eq] at hq
    rcases List.mem_cons.1 hq with rfl | hq
    · exact hsorted
    · obtain ⟨c, hc, hq⟩ := List.mem_flatMap.1 hq
      exact hchildren c hc q hq

/-- A schema and what stands in its fields are in order. -/
structure FieldsInOrder (s : Schema) : Prop where
  sorted : Table.Sorted s.properties
  properties : ∀ e ∈ s.properties, e.2.InOrder
  items : ∀ c ∈ s.items, c.InOrder
  additional : ∀ c ∈ additionalSchema? s.additional, c.InOrder
  allOf : ∀ c ∈ s.allOf, c.InOrder
  oneOf : ∀ c ∈ s.oneOf, c.InOrder
  anyOf : ∀ c ∈ s.anyOf, c.InOrder
  negated : ∀ c ∈ s.negated, c.InOrder

/-- A schema whose fields are in order is in order. -/
theorem FieldsInOrder.inOrder (h : s.FieldsInOrder) : s.InOrder := by
  refine inOrder_iff.2 ⟨h.sorted, fun c hc => ?_⟩
  simp only [children, List.mem_append, List.mem_map, Option.mem_toList] at hc
  rcases hc with (((((⟨e, he, rfl⟩ | hc) | hc) | hc) | hc) | hc) | hc
  · exact h.properties e he
  · exact h.items c hc
  · exact h.additional c hc
  · exact h.allOf c hc
  · exact h.oneOf c hc
  · exact h.anyOf c hc
  · exact h.negated c hc

/-- The fields of an empty schema are in order. -/
theorem fieldsInOrder_empty : ({} : Schema).FieldsInOrder where
  sorted := .nil
  properties := by simp
  items := by simp
  additional := by simp [additionalSchema?]
  allOf := by simp
  oneOf := by simp
  anyOf := by simp
  negated := by simp

-- ================================================================= reading

/-- A setting for further properties is read in order when its schema is. -/
theorem yields_readAdditional {inner : Item → Read Schema}
    (h : ∀ item, Yields (inner item) InOrder) (item : Item) :
    Yields (readAdditional inner item) fun a =>
      ∀ c ∈ additionalSchema? (some a), c.InOrder := by
  refine .skip fun t => Read.yields_orElse ?_ (Read.yields_orElse ?_ (.throw _))
  · exact Yields.map (P := fun _ => True) (fun _ _ _ _ => trivial)
      fun yes _ c hc => absurd hc (Option.not_mem_none c)
  · refine (h _).map fun s hs c hc => ?_
    cases hc
    exact hs

/-- Whatever the fuel, a schema that is read is in order. -/
theorem yields_readWithin (fuel : Nat) (item : Item) :
    Yields (readWithin fuel item) InOrder := by
  induction fuel generalizing item with
  | zero => exact .throw _
  | succ fuel ih =>
      rw [readWithin]
      refine Yields.mono (Item.yields_record fieldsInOrder_empty
        (fun s field item hs => ?_) item) fun s hs => hs.inOrder
      -- only properties are a table; all other fields with schemas keep what their
      -- schemas yield
      split
      case h_6 =>
        refine (Item.yields_table ih item).bind fun t ht => .pure ?_
        exact { hs with sorted := ht.1, properties := ht.2 }
      case h_7 =>
        refine (Item.yields_optional ih item).bind fun o ho => .pure ?_
        exact { hs with items := ho }
      case h_8 =>
        refine (Item.yields_optional (yields_readAdditional ih) item).bind
          fun o ho => .pure { hs with additional := fun c hc => ?_ }
        cases o with
        | none => cases hc
        | some a => exact ho a rfl c hc
      case h_11 =>
        refine (Item.yields_listOf ih item).bind fun l hl => .pure ?_
        exact { hs with allOf := hl }
      case h_12 =>
        refine (Item.yields_listOf ih item).bind fun l hl => .pure ?_
        exact { hs with oneOf := hl }
      case h_13 =>
        refine (Item.yields_listOf ih item).bind fun l hl => .pure ?_
        exact { hs with anyOf := hl }
      case h_14 =>
        refine (Item.yields_optional ih item).bind fun o ho => .pure ?_
        exact { hs with negated := ho }
      all_goals first
        | exact .pure { hs with }
        | exact .skip fun _ => .pure { hs with }

theorem yields_read (item : Item) : Yields (read item) InOrder :=
  yields_readWithin _ item

end Schema

-- =================================================================== roots

/-- All schemas in a list are in order. -/
def AllInOrder (l : List Schema) : Prop :=
  ∀ s ∈ l, s.InOrder

variable {α : Type} {l l' : List Schema}

theorem allInOrder_append :
    AllInOrder (l ++ l') ↔ AllInOrder l ∧ AllInOrder l' :=
  List.forall_mem_append

theorem allInOrder_flatMap {as : List α} {roots : α → List Schema} :
    AllInOrder (as.flatMap roots) ↔ ∀ a ∈ as, AllInOrder (roots a) := by
  simp only [AllInOrder, List.forall_mem_flatMap]

theorem allInOrder_nil : AllInOrder [] :=
  fun _ hs => absurd hs List.not_mem_nil

/-- What may be a pointer has the schemas of what it is if it is none. -/
theorem Referable.yields_read {inner : Item → Read α} {roots : α → List Schema}
    (h : ∀ item, Yields (inner item) fun a => AllInOrder (roots a))
    (item : Item) :
    Yields (Referable.read inner item) fun r => AllInOrder (r.roots roots) := by
  refine .skip fun t => Read.yields_orElse ?_ (Read.yields_orElse ?_ (.throw _))
  · split
    · exact .skip fun target => .pure allInOrder_nil
    · exact Item.yields_unexpected _ _
  · exact (h _).map fun a ha => ha

namespace Item

variable {read : Item → Read α} {roots : α → List Schema}

/-- An option that is read has its schemas in order when what is in it has. -/
theorem yields_rootsOfOptional
    (h : ∀ item, Yields (read item) fun a => AllInOrder (roots a))
    (item : Item) :
    Yields (item.optional read) fun o => AllInOrder (o.toList.flatMap roots) :=
  (yields_optional h item).mono fun o ho => by
    simpa [allInOrder_flatMap] using ho

/-- A list that is read has its schemas in order when its members have. -/
theorem yields_rootsOfList
    (h : ∀ item, Yields (read item) fun a => AllInOrder (roots a))
    (item : Item) :
    Yields (item.listOf read) fun l => AllInOrder (l.flatMap roots) :=
  (yields_listOf h item).mono fun _ => allInOrder_flatMap.2

/-- A table that is read has its schemas in order when its values have. -/
theorem yields_rootsOfTable
    (h : ∀ item, Yields (read item) fun a => AllInOrder (roots a))
    (item : Item) :
    Yields (item.table read) fun t => AllInOrder (t.flatMap fun e => roots e.2) :=
  (yields_table h item).mono fun _ ht => allInOrder_flatMap.2 ht.2

end Item

theorem yields_optionalSchema (item : Item) :
    Yields (item.optional Schema.read) fun o => AllInOrder o.toList :=
  (Item.yields_optional Schema.yields_read item).mono fun o ho => by
    simpa [AllInOrder] using ho

/-- A media type that is read has its schema in order. -/
theorem MediaType.yields_read (item : Item) :
    Yields (MediaType.read item) fun m => AllInOrder m.schema.toList := by
  refine Item.yields_record ?_ (fun m field item hm => ?_) item
  · exact allInOrder_nil
  · split
    · exact (yields_optionalSchema item).bind fun o ho => .pure ho
    · exact .pure hm

/-- A parameter that is read has its schema in order. -/
theorem Parameter.yields_read (item : Item) :
    Yields (Parameter.read item) fun p => AllInOrder p.schema.toList := by
  refine Item.yields_record ?_ (fun p field item hp => ?_) item
  · exact allInOrder_nil
  · split
    case h_6 => exact (yields_optionalSchema item).bind fun o ho => .pure ho
    all_goals first
      | exact .pure hp
      | exact .skip fun _ => .pure hp

/-- A body that is read has its schemas in order. -/
theorem RequestBody.yields_read (item : Item) :
    Yields (RequestBody.read item) fun b => AllInOrder (Content.roots b.content) := by
  refine Item.yields_record ?_ (fun b field item hb => ?_) item
  · exact allInOrder_nil
  · split
    case h_2 =>
      exact (Item.yields_rootsOfTable MediaType.yields_read item).bind
        fun t ht => .pure ht
    all_goals first
      | exact .pure hb
      | exact .skip fun _ => .pure hb

/-- A response that is read has its schemas in order. -/
theorem Response.yields_read (item : Item) :
    Yields (Response.read item) fun r => AllInOrder (Content.roots r.content) := by
  refine Item.yields_record ?_ (fun r field item hr => ?_) item
  · exact allInOrder_nil
  · split
    case h_2 =>
      exact (Item.yields_rootsOfTable MediaType.yields_read item).bind
        fun t ht => .pure ht
    all_goals first
      | exact .pure hr
      | exact .skip fun _ => .pure hr

/-- The schemas of an operation are those of its parameters, body and responses. -/
theorem Operation.roots_iff {o : Operation} : AllInOrder o.roots
    ↔ (AllInOrder (o.parameters.flatMap Parameter.roots)
      ∧ AllInOrder (o.body.toList.flatMap RequestBody.roots))
      ∧ AllInOrder (o.responses.flatMap fun e => Response.roots e.2) := by
  rw [Operation.roots, allInOrder_append, allInOrder_append]

/-- An operation that is read has its schemas in order. -/
theorem Operation.yields_schemas (item : Item) :
    Yields (Operation.read item) fun o => AllInOrder o.roots := by
  refine Item.yields_record ?_ (fun o field item ho => ?_) item
  · exact allInOrder_nil
  · obtain ⟨⟨hparameters, hbody⟩, hresponses⟩ := Operation.roots_iff.1 ho
    split
    case h_5 =>
      refine (Item.yields_rootsOfList
        (Referable.yields_read Parameter.yields_read) item).bind fun l hl => .pure ?_
      exact Operation.roots_iff.2 ⟨⟨hl, hbody⟩, hresponses⟩
    case h_6 =>
      refine (Item.yields_rootsOfOptional
        (Referable.yields_read RequestBody.yields_read) item).bind fun l hl => .pure ?_
      exact Operation.roots_iff.2 ⟨⟨hparameters, hl⟩, hresponses⟩
    case h_7 =>
      refine (Item.yields_rootsOfTable
        (Referable.yields_read Response.yields_read) item).bind fun t ht => .pure ?_
      exact Operation.roots_iff.2 ⟨⟨hparameters, hbody⟩, ht⟩
    all_goals first
      | exact .pure ho
      | exact .skip fun _ => .pure ho

/-- The schemas of an item are those of its parameters and operations. -/
theorem PathItem.roots_iff {p : PathItem} : AllInOrder p.roots
    ↔ AllInOrder (p.parameters.flatMap Parameter.roots)
      ∧ ∀ v, ∀ o ∈ p.operation v, AllInOrder o.roots := by
  rw [PathItem.roots, allInOrder_append]
  refine and_congr_right fun _ => ?_
  rw [allInOrder_flatMap]
  refine ⟨fun h v o ho => ?_, fun h e he => ?_⟩
  · refine h (v, o) (List.mem_filterMap.2 ⟨v, Verb.mem_all v, ?_⟩)
    rw [Option.mem_def.1 ho]
    rfl
  · exact h e.1 e.2 (PathItem.operation_of_mem he)

/-- An item that is read has its schemas in order. -/
theorem PathItem.yields_schemas (item : Item) :
    Yields (PathItem.read item) fun p => AllInOrder p.roots := by
  refine Item.yields_record ?_ (fun p field item hp => ?_) item
  · exact allInOrder_nil
  · obtain ⟨hparameters, hoperations⟩ := PathItem.roots_iff.1 hp
    split
    case h_3 =>
      refine (Item.yields_rootsOfList
        (Referable.yields_read Parameter.yields_read) item).bind fun l hl => .pure ?_
      exact PathItem.roots_iff.2 ⟨hl, hoperations⟩
    case h_4 =>
      split
      · rename_i verb _
        refine (Item.yields_optional Operation.yields_schemas item).bind
          fun op hop => .pure (PathItem.roots_iff.2 ⟨hparameters, fun v o ho => ?_⟩)
        rw [PathItem.withOperation] at ho
        dsimp only at ho
        split at ho
        · exact hop o ho
        · exact hoperations v o ho
      · exact .pure hp
    all_goals exact .skip fun _ => .pure hp

/-- The schemas of components are those of their four tables. -/
theorem Components.roots_iff {c : Components} : AllInOrder c.roots
    ↔ ((AllInOrder (c.schemas.map (·.2))
        ∧ AllInOrder (c.responses.flatMap fun e => Response.roots e.2))
      ∧ AllInOrder (c.parameters.flatMap fun e => Parameter.roots e.2))
      ∧ AllInOrder (c.requestBodies.flatMap fun e => RequestBody.roots e.2) := by
  rw [Components.roots, allInOrder_append, allInOrder_append, allInOrder_append]

/-- Components that are read have their schemas in order. -/
theorem Components.yields_read (item : Item) :
    Yields (Components.read item) fun c => AllInOrder c.roots := by
  refine Item.yields_record ?_ (fun c field item hc => ?_) item
  · exact allInOrder_nil
  · obtain ⟨⟨⟨hschemas, hresponses⟩, hparameters⟩, hbodies⟩ :=
      Components.roots_iff.1 hc
    -- each of the four tables replaces its own schemas, and other fields none
    split
    case h_1 =>
      refine (Item.yields_table Schema.yields_read item).bind fun t ht => .pure ?_
      refine Components.roots_iff.2 ⟨⟨⟨fun s hs => ?_, hresponses⟩, hparameters⟩,
        hbodies⟩
      obtain ⟨e, he, rfl⟩ := List.mem_map.1 hs
      exact ht.2 e he
    case h_2 =>
      refine (Item.yields_rootsOfTable
        (Referable.yields_read Response.yields_read) item).bind fun t ht => .pure ?_
      exact Components.roots_iff.2 ⟨⟨⟨hschemas, ht⟩, hparameters⟩, hbodies⟩
    case h_3 =>
      refine (Item.yields_rootsOfTable
        (Referable.yields_read Parameter.yields_read) item).bind fun t ht => .pure ?_
      exact Components.roots_iff.2 ⟨⟨⟨hschemas, hresponses⟩, ht⟩, hbodies⟩
    case h_4 =>
      refine (Item.yields_rootsOfTable
        (Referable.yields_read RequestBody.yields_read) item).bind fun t ht => .pure ?_
      exact Components.roots_iff.2 ⟨⟨⟨hschemas, hresponses⟩, hparameters⟩, ht⟩
    all_goals first
      | exact .pure hc
      | exact .skip fun _ => .pure hc

namespace Document

/-- The schemas of a document are those of its components, paths and webhooks. -/
theorem roots_iff {d : Document} : AllInOrder d.roots
    ↔ (AllInOrder (d.components.toList.flatMap Components.roots)
      ∧ AllInOrder (d.pathTable.flatMap fun e => e.2.roots))
      ∧ AllInOrder (d.webhooks.flatMap fun e => e.2.roots) := by
  rw [roots, allInOrder_append, allInOrder_append]
  rfl

/-- A document that is read has all its schemas in order. -/
theorem yields_schemas (item : Item) :
    Yields (Document.read item) fun d => AllInOrder d.roots := by
  refine Item.yields_record ?_ (fun d field item hd => ?_) item
  · exact allInOrder_nil
  · obtain ⟨⟨hcomponents, hpaths⟩, hwebhooks⟩ := roots_iff.1 hd
    -- paths, webhooks and components replace their own schemas, and other fields none
    split
    case h_3 =>
      refine (Item.yields_optional
        (Item.yields_rootsOfTable PathItem.yields_schemas) item).bind
          fun paths ht => .pure (roots_iff.2 ⟨⟨hcomponents, ?_⟩, hwebhooks⟩)
      cases paths with
      | none => exact allInOrder_nil
      | some t => exact ht t rfl
    case h_4 =>
      refine (Item.yields_rootsOfTable PathItem.yields_schemas item).bind
        fun t ht => .pure ?_
      exact roots_iff.2 ⟨⟨hcomponents, hpaths⟩, ht⟩
    case h_5 =>
      refine (Item.yields_rootsOfOptional Components.yields_read item).bind
        fun c hc => .pure ?_
      exact roots_iff.2 ⟨⟨hc, hpaths⟩, hwebhooks⟩
    all_goals first
      | exact .pure hd
      | exact .skip fun _ => .pure hd

/-- All schemas of a document are in order if those are that stand in no
other. -/
theorem allInOrder_nodes {d : Document} :
    AllInOrder d.nodes ↔ AllInOrder d.roots := by
  rw [nodes, allInOrder_flatMap]
  refine forall₂_congr fun s _ => ⟨fun h => h s s.mem_nodes_self, fun h q hq => ?_⟩
  exact fun x hx => h x (Schema.nodes_trans hq hx)

/-- The schemas of a document that is loaded are in order. -/
theorem inOrder_of_load {form : Syntax} {octets : List UInt8} {d : Document}
    (h : load form octets = .ok d) : AllInOrder d.nodes := by
  obtain ⟨item, n, hrun⟩ := exists_run_of_load h
  exact allInOrder_nodes.2 (yields_schemas item 0 d n hrun)

end Document

-- =============================================================== canonical

/-- Keys do not change where schemas do. -/
theorem Schema.Alike.inOrder {R : Schema → Schema → Prop} {s s' : Schema}
    (h : Schema.Alike R s s') (hs : s.InOrder) : s'.InOrder := by
  induction s using Schema.induct generalizing s' with
  | step s ih =>
      have hkeys : Table.keys s'.properties = Table.keys s.properties := by
        cases h with
        | intro _ properties => exact Table.Alike.keys properties
      refine Schema.inOrder_iff.2 ⟨?_, fun c' hc' => ?_⟩
      · rw [Table.sorted_iff_keys, hkeys]
        exact Table.sorted_iff_keys.1 hs.properties
      · obtain ⟨c, hc, halike⟩ := exists_of_forall₂ h.children.flip c' hc'
        exact ih c hc halike (hs.child hc)

/-- The schemas of the canonical form are in order as well. -/
theorem Document.inOrder_canonical {d : Document} (h : AllInOrder d.nodes) :
    AllInOrder d.canonical.1.nodes := by
  rw [allInOrder_nodes] at h ⊢
  intro s' hs'
  obtain ⟨s, hs, halike⟩ :=
    exists_of_forall₂ d.canonical_settles.1.roots.flip s' hs'
  exact halike.inOrder (h s hs)

end ApiForge
