import ApiForge.Proofs.Document.Place
import ApiForge.Proofs.Shape.Depth
/-!
The names that shapes mention.

A shape mentions component schemas by their exported names, and takes these
from the pointers that it meets, as text. Which pointers it meets depends on
what is merged; but all stand where the reference check resolves them, since
the check descends into every schema that is no pointer. A resolved pointer to
a schema names a component schema, and its last segment is that name: so every
name in the shape of a schema that the check covers is the exported name of a
component schema (`names_shape?`).
-/

namespace ApiForge

namespace Schema

variable {s c : Schema}

/-- The references of a schema in a table are among those of the table. -/
theorem occurrencesInTable_of_mem {t : List (String × Schema)}
    {e : String × Schema} (he : e ∈ t) (location : String) :
    ∃ inner, e.2.occurrences inner ⊆ occurrencesInTable location t := by
  induction t with
  | nil => exact absurd he List.not_mem_nil
  | cons x rest ih =>
      rw [occurrencesInTable]
      rcases List.mem_cons.1 he with rfl | he
      · exact ⟨_, List.subset_append_left _ _⟩
      · obtain ⟨inner, hinner⟩ := ih he
        exact ⟨inner, List.subset_append_of_subset_right _ hinner⟩

/-- The references of a schema in a list are among those of the list. -/
theorem occurrencesInList_of_mem {l : List Schema} (hc : c ∈ l)
    (location : String) (i : Nat) :
    ∃ inner, c.occurrences inner ⊆ occurrencesInList location i l := by
  induction l generalizing i with
  | nil => exact absurd hc List.not_mem_nil
  | cons x rest ih =>
      rw [occurrencesInList]
      rcases List.mem_cons.1 hc with rfl | hc
      · exact ⟨_, List.subset_append_left _ _⟩
      · obtain ⟨inner, hinner⟩ := ih hc (i + 1)
        exact ⟨inner, List.subset_append_of_subset_right _ hinner⟩

/-- The references of an optional schema are among those of the option. -/
theorem occurrencesInOption_of_mem {o : Option Schema} (hc : c ∈ o.toList)
    (location : String) :
    ∃ inner, c.occurrences inner ⊆ occurrencesInOption location o := by
  cases o with
  | none => exact absurd hc List.not_mem_nil
  | some s =>
      cases List.mem_singleton.1 hc
      exact ⟨location, List.Subset.refl _⟩

/-- The references of the schema for further properties are among those of the
setting. -/
theorem occurrencesInAdditional_of_mem {o : Option (Additional Schema)}
    (hc : c ∈ (additionalSchema? o).toList) (location : String) :
    ∃ inner, c.occurrences inner ⊆ occurrencesInAdditional location o := by
  rcases o with _ | _ | s
  · exact absurd hc List.not_mem_nil
  · exact absurd hc List.not_mem_nil
  · cases List.mem_singleton.1 hc
    exact ⟨location, List.Subset.refl _⟩

/-- The references in what stands in a schema are among those in the schema,
unless this is a pointer. -/
theorem occurrences_child (h : s.pointer = none) (hc : c ∈ s.children)
    (location : String) :
    ∃ inner, c.occurrences inner ⊆ s.occurrences location := by
  rw [occurrences_eq h location]
  simp only [children, List.mem_append, or_assoc] at hc
  -- properties, items, further properties, members of the three kinds, negation
  rcases hc with hc | hc | hc | hc | hc | hc | hc
  · obtain ⟨e, he, rfl⟩ := List.mem_map.1 hc
    obtain ⟨inner, hin⟩ := occurrencesInTable_of_mem he location
    exact ⟨inner, fun o ho => by simp [hin ho]⟩
  · obtain ⟨inner, hin⟩ :=
      occurrencesInOption_of_mem hc (location ++ "[]")
    exact ⟨inner, fun o ho => by simp [hin ho]⟩
  · obtain ⟨inner, hin⟩ :=
      occurrencesInAdditional_of_mem hc (location ++ ".additionalProperties")
    exact ⟨inner, fun o ho => by simp [hin ho]⟩
  · obtain ⟨inner, hin⟩ :=
      occurrencesInList_of_mem hc (location ++ ".allOf") 0
    exact ⟨inner, fun o ho => by simp [hin ho]⟩
  · obtain ⟨inner, hin⟩ :=
      occurrencesInList_of_mem hc (location ++ ".oneOf") 0
    exact ⟨inner, fun o ho => by simp [hin ho]⟩
  · obtain ⟨inner, hin⟩ :=
      occurrencesInList_of_mem hc (location ++ ".anyOf") 0
    exact ⟨inner, fun o ho => by simp [hin ho]⟩
  · obtain ⟨inner, hin⟩ :=
      occurrencesInOption_of_mem hc (location ++ ".not")
    exact ⟨inner, fun o ho => by simp [hin ho]⟩

end Schema

namespace Document

variable {d : Document} {s : Schema} {shape : Shape}

/-- The reference check sees a schema. -/
def Sees (d : Document) (s : Schema) : Prop :=
  ∃ location, s.occurrences location ⊆ d.occurrences

/-- What the check sees passes to the parts of a schema. -/
theorem hereditary_sees (d : Document) : Hereditary d d.Sees where
  component := by
    intro e he
    refine ⟨"components.schemas." ++ e.1, fun o ho => ?_⟩
    simp only [occurrences, Components.occurrences, List.append_assoc]
    exact List.mem_append_left _ (List.mem_flatMap.2 ⟨e, he, ho⟩)
  inside := by
    intro s hs hp c hc
    obtain ⟨location, hseen⟩ := hs
    obtain ⟨inner, hinner⟩ := Schema.occurrences_child hp hc location
    exact ⟨inner, List.Subset.trans hinner hseen⟩

/-- A name is the exported name of a component schema. -/
def ExportsName (d : Document) (name : String) : Prop :=
  ∃ e ∈ d.schemas, name = Identifier.typeName e.1 "Schema"

/-- A pointer that the check sees at a schema leads to a schema. -/
theorem Checked.leadsToSchema (hd : d.Checked) (hs : d.Sees s) {p : String}
    (hp : s.pointer = some p) : ∃ a target, Leads d p ⟨a, .schema target⟩ := by
  obtain ⟨location, hseen⟩ := hs
  rw [Schema.occurrences_pointer hp] at hseen
  obtain ⟨⟨a, c⟩, hleads, hkind⟩ := hd _ (hseen (List.mem_singleton_self _))
  cases c with
  | schema target => exact ⟨a, target, hleads⟩
  | _ => cases hkind

/-- So it resolves to one. -/
theorem Checked.resolvesSchema (hd : d.Checked) (hs : d.Sees s) {p : String}
    (hp : s.pointer = some p) : ∃ target, d.resolveSchema p = .ok target := by
  obtain ⟨a, target, hleads⟩ := hd.leadsToSchema hs hp
  exact ⟨target, resolveSchema_eq_ok_iff.2 ⟨a, hleads⟩⟩

/-- A pointer that a checked document has at a schema names a component
schema. -/
theorem Checked.exportsName (hd : d.Checked) (hs : d.Sees s) {p : String}
    (hp : s.pointer = some p) : d.ExportsName (Schema.nameOfPointer p) := by
  obtain ⟨a, target, hleads⟩ := hd.leadsToSchema hs hp
  refine ⟨(a.name, target), hleads.holds, ?_⟩
  rw [Schema.nameOfPointer, lastName_of_parse (hleads.parse_schema rfl)]

/-- The shape of a schema that the check sees mentions exported names of
component schemas only. -/
theorem names_shape? (hd : d.Checked) (hs : d.Sees s)
    (h : d.shape? s = some shape) : ∀ n ∈ shape.names, d.ExportsName n := by
  intro n hn
  rw [shape?] at h
  obtain ⟨q, p, hq, hp, hname⟩ :=
    names_shapeWithin? (hereditary_sees d) hs h n hn
  rw [hname]
  exact hd.exportsName hq hp

end Document

end ApiForge
