import ApiForge.Proofs.Acyclic
import ApiForge.Proofs.Artifact.Generate
/-!
On which documents mapping ends.

# Cycles

Mapping a schema asks for the shapes of its parts (`Document.Asks`), so it ends
just when no schema that it comes to asks, through others, for itself
(`shape?_isSome_iff`). What stands in a schema is smaller than the schema. Only
where a merge follows a pointer can a part be larger than what asks for it, so
every cycle passes such a merge (`exists_merge_of_cycle`).

A merge passes over the pointers that it is following already, but it forgets
them when it is done, and the merged properties are mapped afresh. So a
property that is itself merged from the component in which it stands is on a
cycle (`knot_endless`), and nothing that is checked before rules this out.
-/

namespace ApiForge

open Relation

namespace Schema

/-- A schema is merged from members, of which some pointer is followed. -/
def FollowsPointers (s : Schema) : Prop :=
  s.pointer = none
    ∧ (s.properties.isEmpty → ∀ single, s.allOf ≠ [single])
    ∧ ∃ p, .follow p ∈ s.mergeSteps

end Schema

namespace Document

variable {d : Document} {s q : Schema}

/-- The shape of a schema of the document asks for that of another. -/
def Asks (d : Document) (s q : Schema) : Prop :=
  s ∈ d.nodes ∧ q ∈ d.parts s

-- ============================================================== asking

/-- A pointer asks for nothing. -/
theorem parts_of_pointer {p : String} (h : s.pointer = some p) :
    d.parts s = [] := by
  rw [parts, h]

/-- Where a shape is found, mapping has ended. -/
theorem acc_of_shapeWithin? {depth : Nat}
    (h : (d.shapeWithin? depth s).isSome) : Acc (flip d.Asks) s := by
  induction depth generalizing s with
  | zero => cases h
  | succ depth ih =>
      refine .intro s fun q ⟨_, hq⟩ => ?_
      cases hp : s.pointer with
      | some p =>
          rw [parts_of_pointer hp] at hq
          exact absurd hq List.not_mem_nil
      | none =>
          rw [shapeWithin?_succ] at h
          exact ih ((made_step d hp).isSome_iff.1 h q hq)

/-- Where mapping ends, a shape is found. -/
theorem shape?_isSome_of_acc (h : Acc (flip d.Asks) s) (hs : s ∈ d.nodes) :
    (d.shape? s).isSome := by
  induction h with
  | intro s _ ih =>
      have hparts : ∀ q ∈ d.parts s, (d.shape? q).isSome := fun q hq =>
        ih q ⟨hs, hq⟩ ((hereditary_nodes d).parts hs q hq)
      have hfound : (d.shapeWithin? (d.schemaCount + 2) s).isSome := by
        rw [shapeWithin?_succ]
        cases hp : s.pointer with
        | some p => rw [shapeStep?, hp]; rfl
        | none => exact (made_step d hp).isSome_iff.2 hparts
      obtain ⟨shape, hshape⟩ := Option.isSome_iff_exists.1 hfound
      rw [(shape?_eq_some_iff hs).2 ⟨_, hshape⟩]
      rfl

/-- A schema of the document has a shape just when it comes to no schema that
asks for itself. -/
theorem shape?_isSome_iff (hs : s ∈ d.nodes) :
    (d.shape? s).isSome
      ↔ ∀ q, ReflTransGen d.Asks s q → ¬ TransGen d.Asks q q := by
  rw [← acc_flip_iff fun a b (hab : d.Asks a b) => hab.1]
  exact ⟨acc_of_shapeWithin?, fun h => shape?_isSome_of_acc h hs⟩

-- ============================================================= cycles

/-- What is declared without following a pointer is declared by the steps
themselves. -/
theorem mem_declarations {decl : Declaration} {budget : Nat}
    {stack : List String} {steps : List MergeStep}
    (h : ∀ p, .follow p ∉ steps)
    (hdecl : decl ∈ d.declarations budget stack steps) :
    .declare decl.properties decl.required ∈ steps := by
  refine declarations_induction
    (motive := fun steps => (∀ p, .follow p ∉ steps) →
      .declare decl.properties decl.required ∈ steps)
    (fun steps hstep _ => hstep) ?_ hdecl h
  intro steps p target hfollow _ _ _ h
  exact absurd hfollow (h p)

/-- Unless a merge follows a pointer, a schema is larger than its parts. -/
theorem length_nodes_lt_of_parts (h : ¬ s.FollowsPointers)
    (hq : q ∈ d.parts s) : q.nodes.length < s.nodes.length := by
  -- a merge that follows no pointer takes its properties from the schema itself
  have hmerged (hp : s.pointer = none)
      (hmany : s.properties.isEmpty → ∀ single, s.allOf ≠ [single])
      (hq : q ∈ d.mergedParts s) : q.nodes.length < s.nodes.length := by
    have hsteps : ∀ p, .follow p ∉ s.mergeSteps := fun p hfollow =>
      h ⟨hp, hmany, p, hfollow⟩
    obtain ⟨e, he, rfl⟩ := List.mem_map.1 hq
    obtain ⟨decl, hdecl, he⟩ := List.mem_flatMap.1 (Table.mem_ofList he)
    refine Hereditary.declared
      (Q := fun c => c.nodes.length < s.nodes.length) (s := s)
      (fun x hx _ c hc => (Schema.length_nodes_lt hc).trans hx)
      (fun c hc => Schema.length_nodes_lt hc)
      (mem_declarations hsteps hdecl) e he
  unfold parts at hq
  split at hq
  · exact absurd hq List.not_mem_nil
  · rename_i hp
    split at hq
    · exact Schema.length_nodes_lt (Hereditary.plainParts_subset s hq)
    · rename_i single hall
      split at hq
      · refine Schema.length_nodes_lt ?_
        simp only [Schema.children, List.mem_append, hall]
        simp [List.mem_singleton.1 hq]
      · rename_i hproperties
        exact hmerged hp (fun hempty => absurd hempty hproperties) hq
    · rename_i hnotSingle
      exact hmerged hp (fun _ => hnotSingle) hq

/-- On the way from a schema to one that is no smaller, a merge follows a
pointer. -/
theorem exists_merge_or_lt (h : TransGen d.Asks s q) :
    (∃ m, ReflTransGen d.Asks s m ∧ TransGen d.Asks m q ∧ m.FollowsPointers)
      ∨ q.nodes.length < s.nodes.length := by
  induction h with
  | single hask =>
      by_cases hfollows : s.FollowsPointers
      · exact .inl ⟨s, .refl, .single hask, hfollows⟩
      · exact .inr (length_nodes_lt_of_parts hfollows hask.2)
  | tail hway hask ih =>
      rename_i b c
      rcases ih with ⟨m, hm, hmb, hfollows⟩ | hlt
      · exact .inl ⟨m, hm, hmb.tail hask, hfollows⟩
      · by_cases hfollows : b.FollowsPointers
        · exact .inl ⟨b, hway.to_reflTransGen, .single hask, hfollows⟩
        · exact .inr ((length_nodes_lt_of_parts hfollows hask.2).trans hlt)

/-- On every cycle a merge follows a pointer. -/
theorem exists_merge_of_cycle (h : TransGen d.Asks s s) :
    ∃ m, ReflTransGen d.Asks s m ∧ TransGen d.Asks m s ∧ m.FollowsPointers :=
  (exists_merge_or_lt h).resolve_right (Nat.lt_irrefl _)

/-- A document has a catalog just when its component schemas have shapes. -/
theorem catalog_iff :
    (∃ c, d.catalog = .ok c) ↔ ∀ e ∈ d.schemas, (d.shape? e.2).isSome := by
  rw [← entries?_isSome_iff, catalog, Catalog.ofDocument?]
  cases Catalog.entries? d <;> simp

/-- Without a catalog, mapping does not end. -/
theorem catalog_cases :
    (∃ c, d.catalog = .ok c) ∨ d.catalog = .error .endless := by
  rw [catalog]
  cases Catalog.ofDocument? d <;> simp

-- ========================================================= main result

/-- Mapping a schema of the document ends just when the schema comes to none
that asks for itself; the document has a catalog just when this holds of all
component schemas; and every schema that asks for itself does so through one
whose merge follows a pointer. -/
theorem mapping_ends_iff_acyclic (d : Document) :
    (∀ s ∈ d.nodes, (∃ depth, (d.shapeWithin? depth s).isSome)
        ↔ ∀ q, ReflTransGen d.Asks s q → ¬ TransGen d.Asks q q)
      ∧ ((∃ c, d.catalog = .ok c)
        ↔ ∀ e ∈ d.schemas,
            ∀ q, ReflTransGen d.Asks e.2 q → ¬ TransGen d.Asks q q)
      ∧ ∀ s, TransGen d.Asks s s →
          ∃ m, ReflTransGen d.Asks s m ∧ TransGen d.Asks m s
            ∧ m.FollowsPointers := by
  refine ⟨fun s hs => ?_, ?_, fun s => exists_merge_of_cycle⟩
  · rw [← shape?_isSome_iff hs]
    refine ⟨fun ⟨depth, h⟩ => ?_, fun h => ⟨_, h⟩⟩
    exact shape?_isSome_of_acc (acc_of_shapeWithin? h) hs
  · rw [catalog_iff]
    exact forall₂_congr fun e he =>
      shape?_isSome_iff ((hereditary_nodes d).component e he)

/-- A pet has pets as parents, and yet mapping the schema of a pet ends: it comes
to no schema that asks for itself. -/
theorem mapping_ends_kennel : ∃ p, Settings.kennel.prepare = .ok p
    ∧ ("Pet", Settings.petSchema) ∈ p.document.schemas
    ∧ ∀ q, ReflTransGen p.document.Asks Settings.petSchema q
        → ¬ TransGen p.document.Asks q q := by
  obtain ⟨p, hp, hdocument, hfinite⟩ := Settings.kennel_prepared
  have hpet : ("Pet", Settings.petSchema) ∈ p.document.schemas := by
    rw [hdocument]
    exact List.mem_singleton_self _
  obtain ⟨c, hc, -⟩ := catalog_ok hfinite
  have hends := (mapping_ends_iff_acyclic p.document).2.1.1 ⟨c, hc⟩
  exact ⟨p, hp, hpet, hends _ hpet⟩

-- ================================================================ a knot

/-- The schema of what is merged from the record in which it stands. -/
def knotProperty : Schema where
  allOf := [.ofPointer "#/components/schemas/A", {}]

/-- The schema of that record. -/
def knotSchema : Schema where
  properties := [("x", knotProperty)]

/-- A document whose one component has a property that is merged from this
component. -/
def knot : Document where
  openapi := "3.1.0"
  info := { title := "Knot", version := "1" }
  components := some { schemas := [("A", knotSchema)] }

/-- The property of the knot is one of its own parts. -/
theorem knotProperty_mem_parts : knotProperty ∈ knot.parts knotProperty := by
  have hlookUp : knot.lookUp "#/components/schemas/A"
      = .ok (⟨.schema, "A"⟩, .component (.schema knotSchema)) := by
    have hparse : Pointer.parse "#/components/schemas/A"
        = .ok ⟨.schema, "A"⟩ := by decide +kernel
    rw [lookUp, hparse]
    rfl
  have hresolve : knot.resolveSchema "#/components/schemas/A" = .ok knotSchema :=
    resolveSchema_eq_ok_iff.2 ⟨_, [], .here hlookUp⟩
  have hmerge : knot.merge knotProperty
      = [⟨[("x", knotProperty)], []⟩, ⟨[], []⟩, ⟨[], []⟩] := by
    have hbudget : (knot.mergePointers knotProperty).length = 1 := by
      decide +kernel
    have hsteps : knotProperty.mergeSteps
        = [.follow "#/components/schemas/A", .declare [] [], .declare [] []] :=
      rfl
    have hmember : knotSchema.mergeSteps
        = [.declare [("x", knotProperty)] []] := rfl
    have hpointer : knotSchema.pointer = none := rfl
    rw [merge, hbudget, hsteps]
    simp [declarations, hresolve, hmember, hpointer]
  rw [parts, mergedParts, hmerge]
  exact List.mem_singleton_self _

/-- The knot is prepared, and mapping does not end on it: no depth is enough for
its property, and it has no catalog. -/
theorem knot_endless : ∃ p s, knot.prepare = .ok p ∧ s ∈ p.document.nodes
    ∧ (∀ depth, p.document.shapeWithin? depth s = none)
    ∧ p.document.catalog = .error .endless := by
  obtain ⟨p, hp, hdocument⟩ :=
    prepared_of_toBool (d := knot) (by decide +kernel)
  have hcanonical : p.document = knot := hdocument
  have hschema : ("A", knotSchema) ∈ knot.schemas := List.mem_singleton_self _
  have hmem : knotSchema ∈ knot.nodes :=
    (hereditary_nodes knot).component _ hschema
  have hasks : knot.Asks knotSchema knotProperty :=
    ⟨hmem, List.mem_singleton_self _⟩
  have hproperty : knotProperty ∈ knot.nodes :=
    (hereditary_nodes knot).parts hmem _ hasks.2
  have hcycle : TransGen knot.Asks knotProperty knotProperty :=
    .single ⟨hproperty, knotProperty_mem_parts⟩
  refine ⟨p, knotProperty, hp, hcanonical ▸ hproperty, fun depth => ?_, ?_⟩
  · refine Option.not_isSome_iff_eq_none.1 fun hfound => ?_
    rw [hcanonical] at hfound
    exact not_transGen_self_of_acc (acc_of_shapeWithin? hfound) hcycle
  · rw [hcanonical]
    refine catalog_cases.resolve_left fun hcatalog => ?_
    have hfound := catalog_iff.1 hcatalog _ hschema
    exact (shape?_isSome_iff hmem).1 hfound knotProperty (.single hasks) hcycle

end Document

end ApiForge
