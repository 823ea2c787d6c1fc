import ApiForge.Document.Canonical
import ApiForge.Shape.OfSchema
import Mathlib.Data.Nat.Init
/-!
The schemas of a document, as a list.

# Nodes and roots

`Schema.nodes` lists a schema and all inside it, those beside a pointer
included; `Document.roots` lists the schemas that stand in a document and not
in another schema. Together they give `Document.nodes`.

# Counting

Making a document canonical counts its schemas on the way. The count is the
length of the list (`schemaCount_eq`). It is proved with a logic of its own:
`Counts m k` says that a step adds `k` whatever it starts from, and there is
one rule for each way in which the walk is put together.
-/

namespace ApiForge

-- =============================================================== nodes

namespace Schema

mutual

/-- A schema and all schemas inside it. -/
def nodes (s : Schema) : List Schema :=
  match s with
  | { properties, items, additional, allOf, oneOf, anyOf, negated, .. } =>
    s :: (nodesOfTable properties ++ nodesOfOption items
      ++ nodesOfAdditional additional ++ nodesOfList allOf
      ++ nodesOfList oneOf ++ nodesOfList anyOf ++ nodesOfOption negated)
termination_by structural s

/-- The nodes of the schemas in a table. -/
def nodesOfTable (t : List (String × Schema)) : List Schema :=
  match t with
  | [] => []
  | (_, s) :: rest => s.nodes ++ nodesOfTable rest
termination_by structural t

/-- The nodes of the schemas in a list. -/
def nodesOfList (l : List Schema) : List Schema :=
  match l with
  | [] => []
  | s :: rest => s.nodes ++ nodesOfList rest
termination_by structural l

/-- The nodes of a schema that may be absent. -/
def nodesOfOption (o : Option Schema) : List Schema :=
  match o with
  | none => []
  | some s => s.nodes
termination_by structural o

/-- The nodes of the schema of additional properties. -/
def nodesOfAdditional (o : Option (Additional Schema)) : List Schema :=
  match o with
  | none => []
  | some (.allowed _) => []
  | some (.shaped s) => s.nodes
termination_by structural o

end

/-- The schema of additional properties, none if there is no such schema. -/
def additionalSchema? (o : Option (Additional Schema)) : Option Schema :=
  match o with
  | some (.shaped s) => some s
  | _ => none

/-- The schemas that stand in a schema and in none of its members. -/
def children (s : Schema) : List Schema :=
  s.properties.map (·.2) ++ s.items.toList
    ++ (additionalSchema? s.additional).toList ++ s.allOf ++ s.oneOf ++ s.anyOf
    ++ s.negated.toList

theorem nodesOfTable_eq (t : List (String × Schema)) :
    nodesOfTable t = (t.map (·.2)).flatMap nodes := by
  induction t with
  | nil => rfl
  | cons e rest ih => rw [nodesOfTable, ih, List.map_cons, List.flatMap_cons]

theorem nodesOfList_eq (l : List Schema) : nodesOfList l = l.flatMap nodes := by
  induction l with
  | nil => rfl
  | cons s rest ih => rw [nodesOfList, ih, List.flatMap_cons]

theorem nodesOfOption_eq (o : Option Schema) :
    nodesOfOption o = o.toList.flatMap nodes := by
  cases o <;> simp [nodesOfOption]

theorem nodesOfAdditional_eq (o : Option (Additional Schema)) :
    nodesOfAdditional o = (additionalSchema? o).toList.flatMap nodes := by
  rcases o with _ | _ | s <;> simp [nodesOfAdditional, additionalSchema?]

/-- The nodes of a schema are itself and those of its children. -/
theorem nodes_eq (s : Schema) : s.nodes = s :: s.children.flatMap nodes := by
  cases s
  simp only [nodes, children, nodesOfTable_eq, nodesOfList_eq,
    nodesOfOption_eq, nodesOfAdditional_eq, List.flatMap_append]

/-- A schema is one of its nodes. -/
theorem mem_nodes_self (s : Schema) : s ∈ s.nodes := by
  rw [nodes_eq]
  exact List.mem_cons_self ..

/-- The nodes of a child are fewer than those of the schema it stands in. -/
theorem length_nodes_lt {s c : Schema} (h : c ∈ s.children) :
    c.nodes.length < s.nodes.length := by
  rw [nodes_eq s, List.length_cons, List.flatMap_def]
  exact Nat.lt_succ_of_le
    (List.sublist_flatten_of_mem (List.mem_map_of_mem h)).length_le

/-- The nodes of a node are nodes. -/
theorem nodes_trans {s x : Schema} (h : x ∈ s.nodes) : x.nodes ⊆ s.nodes := by
  induction hn : s.nodes.length using Nat.strong_induction_on
    generalizing s with | h n ih => ?_
  rw [nodes_eq s] at h
  rcases List.mem_cons.1 h with rfl | h
  · exact List.Subset.refl _
  · obtain ⟨c, hc, hx⟩ := List.mem_flatMap.1 h
    have hlt : c.nodes.length < n := hn ▸ length_nodes_lt hc
    intro y hy
    rw [nodes_eq s]
    exact List.mem_cons_of_mem _
      (List.mem_flatMap.2 ⟨c, hc, ih _ hlt hx rfl hy⟩)

/-- The children of a node are nodes. -/
theorem children_mem_nodes {s x c : Schema} (h : x ∈ s.nodes)
    (hc : c ∈ x.children) : c ∈ s.nodes := by
  apply nodes_trans h
  rw [nodes_eq x]
  exact List.mem_cons_of_mem _
    (List.mem_flatMap.2 ⟨c, hc, mem_nodes_self c⟩)

end Schema

-- =============================================================== roots

/-- The schemas of the bodies in a content table. -/
def Content.roots (c : Content) : List Schema :=
  c.flatMap fun e => e.2.schema.toList

/-- The schemas of an entry that is written out. -/
def Referable.roots {α : Type} (inner : α → List Schema) :
    Referable α → List Schema
  | .pointer _ => []
  | .inline a => inner a

/-- The schema of a parameter. -/
def Parameter.roots (p : Referable Parameter) : List Schema :=
  p.roots fun p => p.schema.toList

/-- The schemas of a request body. -/
def RequestBody.roots (b : Referable RequestBody) : List Schema :=
  b.roots fun b => Content.roots b.content

/-- The schemas of an answer. -/
def Response.roots (r : Referable Response) : List Schema :=
  r.roots fun r => Content.roots r.content

/-- The schemas of an operation. -/
def Operation.roots (o : Operation) : List Schema :=
  o.parameters.flatMap Parameter.roots
    ++ o.body.toList.flatMap RequestBody.roots
    ++ o.responses.flatMap fun e => Response.roots e.2

/-- The schemas of a path. -/
def PathItem.roots (p : PathItem) : List Schema :=
  p.parameters.flatMap Parameter.roots
    ++ p.operations.flatMap fun e => e.2.roots

/-- The schemas of the shared entries. -/
def Components.roots (c : Components) : List Schema :=
  c.schemas.map (·.2) ++ c.responses.flatMap (fun e => Response.roots e.2)
    ++ c.parameters.flatMap (fun e => Parameter.roots e.2)
    ++ c.requestBodies.flatMap fun e => RequestBody.roots e.2

namespace Document

/-- The schemas of a document that stand in no other schema. -/
def roots (d : Document) : List Schema :=
  d.components.toList.flatMap Components.roots
    ++ (d.paths.getD []).flatMap (fun e => e.2.roots)
    ++ d.webhooks.flatMap fun e => e.2.roots

/-- All schemas of a document. -/
def nodes (d : Document) : List Schema :=
  d.roots.flatMap Schema.nodes

end Document

-- ============================================================ counting

/-- A step of the walk adds a number to the count. -/
def Counts {α : Type} (m : StateM Nat α) (k : Nat) : Prop :=
  ∀ n, (m n).2 = n + k

namespace Counts

variable {α β : Type}

theorem pure (a : α) : Counts (pure a) 0 := fun _ => rfl

theorem step : Counts (modify (· + 1)) 1 := fun _ => rfl

/-- Runs in sequence count together. -/
theorem bind {m : StateM Nat α} {f : α → StateM Nat β} {k l : Nat}
    (hm : Counts m k) (hf : ∀ a, Counts (f a) l) :
    Counts (m >>= f) (k + l) := by
  intro n
  show (f (m n).1 (m n).2).2 = n + (k + l)
  rw [hf, hm, Nat.add_assoc]

/-- What is made of a step's answer does not count. -/
theorem bind_pure {m : StateM Nat α} {f : α → β} {k : Nat}
    (hm : Counts m k) : Counts (m >>= fun a => Pure.pure (f a)) k :=
  bind hm fun _ => pure _

/-- The members of a list count one after the other. -/
theorem mapM {l : List α} {f : α → StateM Nat β} {inner : α → List Schema}
    (hf : ∀ a ∈ l, Counts (f a) (inner a).length) :
    Counts (l.mapM f) (l.flatMap inner).length := by
  induction l with
  | nil => exact pure []
  | cons a l ih =>
      rw [List.mapM_cons, List.flatMap_cons, List.length_append]
      refine bind (hf a (List.mem_cons_self ..)) fun b => bind_pure ?_
      exact ih fun x hx => hf x (List.mem_cons_of_mem _ hx)

/-- So do the values of a table. -/
theorem tableMapM {t : Table α} {f : α → StateM Nat β} {inner : α → List Schema}
    (hf : ∀ a, Counts (f a) (inner a).length) :
    Counts (t.mapM f) (t.flatMap fun e => inner e.2).length :=
  mapM fun e _ => bind_pure (hf e.2)

/-- What may be absent counts if it is there. -/
theorem optionMapM {o : Option α} {f : α → StateM Nat β}
    {inner : α → List Schema} (hf : ∀ a, Counts (f a) (inner a).length) :
    Counts (o.mapM f) (o.toList.flatMap inner).length := by
  cases o with
  | none => exact pure none
  | some a =>
      simp only [Option.mapM_some, Option.toList_some, List.flatMap_cons,
        List.flatMap_nil, List.append_nil]
      exact bind_pure (hf a)

end Counts

namespace Schema

mutual

/-- A schema counts its nodes, each once. The proof goes by the recursion of
both definitions. -/
theorem counts_canonical (s : Schema) : Counts s.canonical s.nodes.length := by
  match s with
  | { properties, items, additional, allOf, oneOf, anyOf, negated, .. } =>
    rw [canonical, nodes, List.length_cons, Nat.add_comm]
    simp only [List.length_append, Nat.add_assoc]
    exact .bind .step fun _ => (counts_canonicalTable properties).bind fun _ =>
      (counts_canonicalOption items).bind fun _ =>
      (counts_canonicalAdditional additional).bind fun _ =>
      (counts_canonicalList allOf).bind fun _ =>
      (counts_canonicalList oneOf).bind fun _ =>
      (counts_canonicalList anyOf).bind fun _ =>
      (counts_canonicalOption negated).bind_pure
termination_by structural s

/-- So do the schemas of a table. -/
theorem counts_canonicalTable (t : List (String × Schema)) :
    Counts (canonicalTable t) (nodesOfTable t).length := by
  match t with
  | [] => exact .pure []
  | (k, s) :: rest =>
    rw [canonicalTable, nodesOfTable, List.length_append]
    exact (counts_canonical s).bind fun _ =>
      (counts_canonicalTable rest).bind_pure
termination_by structural t

/-- So do the schemas of a list. -/
theorem counts_canonicalList (l : List Schema) :
    Counts (canonicalList l) (nodesOfList l).length := by
  match l with
  | [] => exact .pure []
  | s :: rest =>
    rw [canonicalList, nodesOfList, List.length_append]
    exact (counts_canonical s).bind fun _ =>
      (counts_canonicalList rest).bind_pure
termination_by structural l

/-- So does a schema that may be absent. -/
theorem counts_canonicalOption (o : Option Schema) :
    Counts (canonicalOption o) (nodesOfOption o).length := by
  match o with
  | none => exact .pure none
  | some s => exact (counts_canonical s).bind_pure
termination_by structural o

/-- So does the schema of additional properties. -/
theorem counts_canonicalAdditional (o : Option (Additional Schema)) :
    Counts (canonicalAdditional o) (nodesOfAdditional o).length := by
  match o with
  | none => exact .pure none
  | some (.allowed b) => exact .pure _
  | some (.shaped s) => exact (counts_canonical s).bind_pure
termination_by structural o

end

end Schema

-- ======================================================= the document

/-- A schema that may be absent counts the nodes of all that it holds. -/
theorem Schema.counts_option (o : Option Schema) :
    Counts (canonicalOption o) (o.toList.flatMap nodes).length := by
  rw [← nodesOfOption_eq]
  exact counts_canonicalOption o

/-- A written-out entry counts what it holds, and a pointer nothing. -/
theorem Counts.referable {α : Type} {f : α → StateM Nat α}
    {inner : α → List Schema}
    (hf : ∀ a, Counts (f a) ((inner a).flatMap Schema.nodes).length)
    (e : Referable α) :
    Counts (e.mapM f) ((e.roots inner).flatMap Schema.nodes).length := by
  cases e with
  | pointer target => exact .pure _
  | inline a => exact (hf a).bind_pure

/-- A content counts the nodes of its schemas. -/
theorem Content.counts (c : Content) :
    Counts (Table.mapM MediaType.canonical c)
      ((Content.roots c).flatMap Schema.nodes).length := by
  have hmedia (m : MediaType) :
      Counts m.canonical (m.schema.toList.flatMap Schema.nodes).length :=
    (Schema.counts_option m.schema).bind_pure
  rw [Content.roots, List.flatMap_assoc]
  exact .tableMapM hmedia

/-- A parameter counts the nodes of its schemas. -/
theorem Parameter.counts (p : Referable Parameter) :
    Counts (p.mapM Parameter.canonical)
      ((Parameter.roots p).flatMap Schema.nodes).length := by
  refine .referable (fun p => ?_) p
  exact (Schema.counts_option p.schema).bind_pure

/-- A body counts the nodes of its schemas. -/
theorem RequestBody.counts (b : Referable RequestBody) :
    Counts (b.mapM RequestBody.canonical)
      ((RequestBody.roots b).flatMap Schema.nodes).length := by
  refine .referable (fun b => ?_) b
  exact (Content.counts b.content).bind_pure

/-- A response counts the nodes of its schemas. -/
theorem Response.counts (r : Referable Response) :
    Counts (r.mapM Response.canonical)
      ((Response.roots r).flatMap Schema.nodes).length := by
  refine .referable (fun r => ?_) r
  exact (Content.counts r.content).bind_pure

/-- The parameters of an operation or of a path count one after the other. -/
theorem Parameter.countsList (ps : List (Referable Parameter)) :
    Counts (ps.mapM (Referable.mapM Parameter.canonical))
      (ps.flatMap fun p => (Parameter.roots p).flatMap Schema.nodes).length :=
  .mapM fun p _ => Parameter.counts p

/-- An operation counts the nodes of its schemas. -/
theorem Operation.counts (o : Operation) :
    Counts o.canonical (o.roots.flatMap Schema.nodes).length := by
  simp only [Operation.roots, List.flatMap_append, List.length_append,
    List.flatMap_assoc, Nat.add_assoc]
  exact (Parameter.countsList o.parameters).bind fun _ =>
    (Counts.optionMapM RequestBody.counts).bind fun _ =>
    (Counts.tableMapM Response.counts).bind_pure

/-- An item counts the nodes of its schemas. -/
theorem PathItem.counts (p : PathItem) :
    Counts p.canonical (p.roots.flatMap Schema.nodes).length := by
  simp only [PathItem.roots, List.flatMap_append, List.length_append,
    List.flatMap_assoc]
  refine (Parameter.countsList p.parameters).bind fun _ => .bind_pure ?_
  exact .mapM fun e _ => (Operation.counts e.2).bind_pure

/-- Components count the nodes of their schemas. -/
theorem Components.counts (c : Components) :
    Counts c.canonical (c.roots.flatMap Schema.nodes).length := by
  simp only [Components.roots, List.flatMap_append, List.length_append,
    List.flatMap_assoc, Nat.add_assoc, ← Schema.nodesOfTable_eq]
  exact (Schema.counts_canonicalTable c.schemas).bind fun _ =>
    (Counts.tableMapM Response.counts).bind fun _ =>
    (Counts.tableMapM Parameter.counts).bind fun _ =>
    (Counts.tableMapM RequestBody.counts).bind_pure

-- ========================================================= main result

/-- The number of schemas in a document is that of its nodes. -/
theorem Document.schemaCount_eq (d : Document) :
    d.schemaCount = d.nodes.length := by
  have hcomponents : Counts (d.components.mapM Components.canonical)
      (d.components.toList.flatMap fun c =>
        c.roots.flatMap Schema.nodes).length :=
    .optionMapM Components.counts
  have hpaths : Counts (d.paths.mapM (Table.mapM PathItem.canonical))
      ((d.paths.getD []).flatMap fun e =>
        e.2.roots.flatMap Schema.nodes).length := by
    cases d.paths with
    | none => exact .pure none
    | some t => exact (Counts.tableMapM PathItem.counts).bind_pure
  have hwalk := hcomponents.bind fun components => hpaths.bind fun paths =>
    (Counts.tableMapM (t := d.webhooks) PathItem.counts).bind_pure
      (f := fun webhooks => { d with components, paths, webhooks })
  rw [Document.schemaCount, Document.canonical]
  refine (hwalk 0).trans ?_
  simp only [Document.nodes, Document.roots, List.flatMap_append,
    List.length_append, List.flatMap_assoc, Nat.zero_add, Nat.add_assoc]

end ApiForge
