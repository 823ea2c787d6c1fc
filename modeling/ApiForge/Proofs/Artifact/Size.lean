import ApiForge.Proofs.Acyclic
import ApiForge.Proofs.Artifact.FirstCome
import ApiForge.Proofs.Shape.Catalog
/-!
Which generated types have a finite size.

# By value

A value of a struct holds the values of its fields, unless these are behind a
box, a list or a map; an alias is what it stands for. Types have a finite size
when following this comes to no type that holds itself (`FiniteSize`).

# Requirements

Whether a field is boxed is decided from the field and the name of its owner.
That is enough for optional fields: a record in one is boxed, and what is not
boxed is no record, so nothing leads back from it (`Meaning.acc_of_not_record`).
A required field is boxed only if its type is written as its owner. So faithful
types have a finite size just when no component schema requires itself through
aliases, required fields of other types and required records in place
(`finite_size_iff`); one that does has infinite types (`mirror_infinite`).

# In the source

`Source.Holds` is the same relation between the types that a source declares,
read from the texts of their fields. A text does not tell a type with a name such
as `String` from that of a library; of all other names both relations are one
(`source_holds_iff`).
-/

namespace ApiForge

open Relation
open Hoist (express fieldHint standsAlone)

-- ============================================================= by value

/-- The names of the types whose values a value of a type expression holds:
those behind a box, a list or a map are held elsewhere. -/
def TypeExpr.held : TypeExpr → List String
  | builtin _ => []
  | component name => [name]
  | hoisted name => [name]
  | list _ => []
  | map _ => []
  | box _ => []
  | optional inner => inner.held

namespace Source

/-- What is left of names is one of them. -/
theorem mem_of_heldOf {names : List String} {m : String} (h : heldOf names = some m) :
    m ∈ names := by
  unfold heldOf at h
  split at h
  · rename_i name heq
    cases h
    exact (List.dropWhile_suffix _).subset (heq ▸ List.mem_singleton_self m)
  · cases h

theorem heldOf_option (names : List String) :
    heldOf ("Option" :: names) = heldOf names := by
  unfold heldOf
  rw [List.dropWhile_cons_of_pos (by decide)]

/-- Behind any other name nothing is held, so that name is the only one. -/
theorem eq_of_heldOf_cons {name m : String} {names : List String} (hne : name ≠ "Option")
    (h : heldOf (name :: names) = some m) : m = name := by
  unfold heldOf at h
  rw [List.dropWhile_cons_of_neg (by simpa using hne)] at h
  split at h
  · rename_i heq
    cases heq
    cases h
    rfl
  · cases h

theorem heldOf_singleton {name : String} (hne : name ≠ "Option") :
    heldOf [name] = some name := by
  unfold heldOf
  rw [List.dropWhile_cons_of_neg (by simpa using hne)]

/-- A value of a type that is declared in a source holds one of another type that
is declared there. -/
def Holds (steps : List Step) (n m : String) : Prop :=
  (∃ x ∈ declaredIn steps, x.name = n ∧ ∃ type ∈ x.types, held? type = some m)
    ∧ ∃ x ∈ declaredIn steps, x.name = m

/-- No type that is declared in a source holds itself. -/
def FiniteSize (steps : List Step) : Prop :=
  ∀ n, ¬ TransGen (Holds steps) n n

end Source

/-- Unless it is that of a type in a library, the name of the type that is held by
value can be told from the text of a type expression. -/
theorem TypeExpr.held?_text {t : TypeExpr} (h : t.Legible) {m : String}
    (hm : m ∉ Source.libraryNames) : Source.held? t.text = some m ↔ m ∈ t.held := by
  have hone (name : String) : Source.heldOf [name] = some m ↔ m ∈ [name] := by
    by_cases hname : name = "Option"
    · subst hname
      refine iff_of_false (fun h => by cases h) fun hmem => hm ?_
      rw [List.mem_singleton.1 hmem]
      decide
    · rw [Source.heldOf_singleton hname, Option.some.injEq, List.mem_singleton, eq_comm]
  -- a wrapper keeps its value elsewhere, and has the name of a library
  have hwrapped {name : String} (hname : name ≠ "Option")
      (hlibrary : name ∈ Source.libraryNames) (names : List String) :
      Source.heldOf (name :: names) = some m ↔ m ∈ ([] : List String) := by
    refine iff_of_false (fun hheld => ?_) List.not_mem_nil
    exact hm (Source.eq_of_heldOf_cons hname hheld ▸ hlibrary)
  rw [Source.held?, namesIn_text_eq h]
  induction t with
  | builtin text =>
      refine iff_of_false (fun hheld => ?_) List.not_mem_nil
      exact hm (namesIn_primitive (h.builtins (List.mem_singleton_self _))
        (Source.mem_of_heldOf hheld))
  | component name => exact hone name
  | hoisted name => exact hone name
  | list item => exact hwrapped (by decide) (by decide) _
  | map value => exact hwrapped (by decide) (by decide) _
  | box inner => exact hwrapped (by decide) (by decide) _
  | optional inner ih =>
      rw [words, Source.heldOf_option]
      exact ih ⟨h.builtins, h.components, h.hoisted⟩

/-- What is held by value is mentioned. -/
theorem TypeExpr.held_subset (t : TypeExpr) :
    t.held ⊆ t.components ++ t.hoistedNames := by
  induction t with
  | component name => exact List.subset_append_left _ _
  | hoisted name => exact List.subset_append_right _ _
  | optional inner ih => exact ih
  | _ => exact List.nil_subset _

namespace Hoist

/-- A type expression holds the name that the shape is, or the name under which
the shape is hoisted. -/
theorem mem_held_express {hint m : String} {shape : Shape} :
    m ∈ (express hint shape).1.held
      ↔ shape = .named m ∨ standsAlone shape = true ∧ m = hint := by
  cases shape <;> simp [express, TypeExpr.held, standsAlone, eq_comm]

/-- A field holds what its shape does, unless it is boxed. -/
theorem held_renderField (c : Catalog) (f : Field) (owner : String) :
    (renderField c f owner {}).1.held
      = if c.needsBox f owner then []
        else (express (fieldHint owner f) f.shape).1.held := by
  unfold renderField
  cases c.needsBox f owner <;> cases f.required <;> rfl

/-- A box does not change which components are mentioned. -/
theorem components_renderField (c : Catalog) (f : Field) (owner : String) :
    (renderField c f owner {}).1.components
      = (express (fieldHint owner f) f.shape).1.components := by
  unfold renderField
  cases c.needsBox f owner <;> cases f.required <;> rfl

end Hoist

namespace Definition

variable {c : Catalog} {name : String}

/-- The types of the fields are rendered field by field. -/
theorem types_fieldsOf (owner : String) (i : Nat) (fields : List Field) :
    (fieldsOf c owner i fields {}).1.map (·.type)
      = fields.map fun f => (Hoist.renderField c f owner {}).1 := by
  induction fields generalizing i with
  | nil => rfl
  | cons f rest ih =>
      rw [fieldsOf_cons, List.map_cons, List.map_cons, ih]
      rfl

/-- The types in the definition of a record are those of its fields. -/
theorem types_record (fields : List Field) :
    (Definition.of c name none (.record fields)).types
      = fields.map fun f => (Hoist.renderField c f name {}).1 :=
  types_fieldsOf name 0 fields

/-- The type in the definition of an alias is that of the shape. -/
theorem types_alias {shape : Shape} (h : standsAlone shape = false) :
    (Definition.of c name none shape).types = [(express name shape).1] := by
  obtain ⟨hof, -, -⟩ := of_alias (c := c) h name none {}
  rw [Definition.of, hof]
  rfl

/-- The definition of a shape holds what it is an alias of, and what the fields
hold that are not boxed: a named type, or the type of a shape in place. -/
theorem mem_held_of {shape : Shape} {m : String} :
    m ∈ (Definition.of c name none shape).types.flatMap TypeExpr.held
      ↔ shape = .named m
        ∨ ∃ fields, shape = .record fields
          ∧ ∃ f ∈ fields, c.needsBox f name = false
            ∧ (f.shape = .named m
              ∨ standsAlone f.shape = true ∧ m = fieldHint name f) := by
  -- an alias holds its target, a choice nothing, a record what its fields hold
  cases halone : standsAlone shape with
  | false =>
      rw [types_alias halone, List.flatMap_singleton, Hoist.mem_held_express,
        halone]
      refine or_congr_right (iff_of_false (fun h => by cases h.1) ?_)
      rintro ⟨fields, rfl, -⟩
      cases halone
  | true =>
      match shape with
      | .choice _ =>
          refine iff_of_false List.not_mem_nil ?_
          rintro (h | ⟨_, h, -⟩) <;> cases h
      | .record fields =>
          simp only [types_record, List.flatMap_map, List.mem_flatMap,
            Hoist.held_renderField, ← Hoist.mem_held_express]
          constructor
          · rintro ⟨f, hf, hm⟩
            cases hbox : c.needsBox f name with
            | true =>
                rw [hbox] at hm
                exact absurd hm List.not_mem_nil
            | false =>
                rw [hbox] at hm
                exact .inr ⟨fields, rfl, f, hf, hbox, hm⟩
          · rintro (h | ⟨_, h, f, hf, hbox, hm⟩) <;> cases h
            rw [← Bool.not_eq_true] at hbox
            exact ⟨f, hf, by rwa [if_neg hbox]⟩

end Definition

-- ========================================================== requirements

namespace Shape

/-- Whether a shape is a given name. -/
def isNamed (name : String) : Shape → Bool
  | named n => n == name
  | _ => false

mutual

/-- The names that a shape requires: there is no value of the shape without one
of each. A field of its owner's own type does not count, since it is boxed. -/
def requires (owner : String) : Shape → List String
  | named name => [name]
  | record fields => requiresOfFields owner fields
  | _ => []

/-- The names that the fields of a record require. -/
def requiresOfFields (owner : String) : List (FieldOf Shape) → List String
  | [] => []
  | f :: rest =>
    (if f.required && !f.shape.isNamed owner then
      f.shape.requires (fieldHint owner f)
    else []) ++ requiresOfFields owner rest

end

/-- A record requires what the shape of a required field requires, if that is not the
owner itself. -/
theorem requires_record {owner : String} {fields : List Field} {f : Field}
    (hf : f ∈ fields) (hrequired : f.required = true)
    (hother : f.shape.isNamed owner = false) :
    f.shape.requires (fieldHint owner f) ⊆ (record fields).requires owner := by
  rw [requires]
  induction fields with
  | nil => exact absurd hf List.not_mem_nil
  | cons g rest ih =>
      rw [requiresOfFields]
      rcases List.mem_cons.1 hf with rfl | hf
      · rw [hrequired, hother]
        exact List.subset_append_left _ _
      · exact List.subset_append_of_subset_right _ (ih hf)

/-- What a record requires is required by the shape of a required field. -/
theorem mem_requires_record {owner m : String} {fields : List Field}
    (h : m ∈ (record fields).requires owner) :
    ∃ f ∈ fields, f.required = true ∧ f.shape.isNamed owner = false
      ∧ m ∈ f.shape.requires (fieldHint owner f) := by
  rw [requires] at h
  induction fields with
  | nil => exact absurd h List.not_mem_nil
  | cons g rest ih =>
      rw [requiresOfFields] at h
      rcases List.mem_append.1 h with h | h
      · split at h
        · rename_i hg
          rw [Bool.and_eq_true, Bool.not_eq_true'] at hg
          exact ⟨g, List.mem_cons_self .., hg.1, hg.2, h⟩
        · exact absurd h List.not_mem_nil
      · obtain ⟨f, hf, hrest⟩ := ih h
        exact ⟨f, List.mem_cons_of_mem _ hf, hrest⟩

end Shape

/-- The values of a component require those of another. -/
def Catalog.Requires (c : Catalog) (n m : String) : Prop :=
  ∃ e ∈ c.entries, e.name = n ∧ m ∈ e.shape.requires e.name

namespace TypesModule

/-- The values of a type hold values of another. -/
def Holds (c : Catalog) (n m : String) : Prop :=
  ∃ d ∈ definitions c, d.name = n ∧ m ∈ d.types.flatMap TypeExpr.held

/-- No type holds itself. -/
def FiniteSize (c : Catalog) : Prop :=
  ∀ n, ¬ TransGen (Holds c) n n

-- ============================================================ in the source

variable {d : Document} {c : Catalog}

/-- What a type holds is defined. -/
theorem mem_names_of_holds (hd : d.Checked) (hf : d.MapsFinitely)
    (hc : d.catalog = .ok c) {n m : String} (h : Holds c n m) : m ∈ names c := by
  obtain ⟨-, -, hresolves⟩ := definitions_closed hd hf hc
  obtain ⟨x, hx, -, hm⟩ := h
  obtain ⟨t, ht, hheld⟩ := List.mem_flatMap.1 hm
  obtain ⟨-, hcomponents, hhoisted⟩ :=
    hresolves t (List.mem_flatMap.2 ⟨x, hx, ht⟩)
  exact List.append_subset.2 ⟨hcomponents, hhoisted⟩ (t.held_subset hheld)

/-- What a type holds can be read from the source, unless it has the name of a type
in a library. -/
theorem source_holds_iff (hd : d.Checked) (hf : d.MapsFinitely)
    (hc : d.catalog = .ok c) {n m : String} (hm : m ∉ Source.libraryNames) :
    Source.Holds (steps c) n m ↔ Holds c n m := by
  -- in a definition, the texts of the types name what the types hold
  have htypes (x : Definition) (hx : x ∈ definitions c) :
      (∃ type ∈ x.declared.types, Source.held? type = some m)
        ↔ m ∈ x.types.flatMap TypeExpr.held := by
    simp only [Definition.types_declared, List.mem_map, List.mem_flatMap,
      exists_exists_and_eq_and]
    exact exists_congr fun t => and_congr_right fun ht =>
      TypeExpr.held?_text (legible_types hd hf hc x hx t ht) hm
  simp only [Source.Holds, declaredIn_steps (isName_entries hf hc), List.mem_map,
    exists_exists_and_eq_and]
  constructor
  · rintro ⟨⟨x, hx, hname, hheld⟩, -⟩
    exact ⟨x, hx, x.name_declared ▸ hname, (htypes x hx).1 hheld⟩
  · rintro ⟨x, hx, hname, hheld⟩
    refine ⟨⟨x, hx, x.name_declared.trans hname, (htypes x hx).2 hheld⟩, ?_⟩
    obtain ⟨y, hy, rfl⟩ :=
      List.mem_map.1 (mem_names_of_holds hd hf hc ⟨x, hx, hname, hheld⟩)
    exact ⟨y, hy, y.name_declared⟩

/-- If no type has the name of one in a library, the source holds what the types
hold. -/
theorem source_holds (hd : d.Checked) (hf : d.MapsFinitely) (hc : d.catalog = .ok c)
    (hown : ∀ n ∈ names c, n ∉ Source.libraryNames) :
    Source.Holds (steps c) = Holds c := by
  funext n m
  by_cases hm : m ∈ names c
  · exact propext (source_holds_iff hd hf hc (hown m hm))
  · -- neither relation leads to a name that is not defined
    refine propext (iff_of_false (fun h => hm ?_) fun h => hm ?_)
    · obtain ⟨x, hx, rfl⟩ := h.2
      rw [← map_name_declared, ← declaredIn_steps (isName_entries hf hc)]
      exact List.mem_map_of_mem hx
    · exact mem_names_of_holds hd hf hc h

-- =============================================================== meaning

/-- The faithful types of a document with the shapes that they define, and what
is known of its component schemas. -/
structure Meaning (c : Catalog) (shapeOf : String → Shape) : Prop where
  gives : ∀ d ∈ definitions c, Gives c d ⟨d.name, shapeOf d.name⟩
  entry : ∀ e ∈ c.entries, e.name ∈ names c ∧ shapeOf e.name = e.shape
  place : ∀ d ∈ definitions c,
    List.Forall₂ (fun t place => ∀ n ∈ t.hoistedNames,
        n ∈ names c ∧ place.inline? = some (shapeOf n))
      d.types (shapeOf d.name).places
  exported : ∀ d ∈ definitions c, ∀ t ∈ d.types, ∀ n ∈ t.components,
    ∃ e ∈ c.entries, e.name = n
  records : c.records = Catalog.namesWhere c.entries Catalog.isRecordShape
  distinct : (c.entries.map (·.name)).Nodup

namespace Meaning

variable {c : Catalog} {shapeOf : String → Shape} {n m : String}
  {e : CatalogEntry} {f : Field} {fields : List Field}

theorem types (h : Meaning c shapeOf) {d : Definition}
    (hd : d ∈ definitions c) :
    d.types = (Definition.of c d.name none (shapeOf d.name)).types := by
  rw [Definition.types, Definition.types, (h.gives d hd).2]

/-- What a type holds, from the shape that it defines. -/
theorem holds_iff (h : Meaning c shapeOf) :
    Holds c n m ↔ n ∈ names c
      ∧ (shapeOf n = .named m
        ∨ ∃ fields, shapeOf n = .record fields
          ∧ ∃ f ∈ fields, c.needsBox f n = false
            ∧ (f.shape = .named m
              ∨ standsAlone f.shape = true ∧ m = fieldHint n f)) := by
  rw [← Definition.mem_held_of (c := c)]
  constructor
  · rintro ⟨d, hd, rfl, hm⟩
    rw [h.types hd] at hm
    exact ⟨List.mem_map_of_mem hd, hm⟩
  · rintro ⟨hn, hm⟩
    obtain ⟨d, hd, rfl⟩ := List.mem_map.1 hn
    refine ⟨d, hd, rfl, ?_⟩
    rw [h.types hd]
    exact hm

/-- A record or a choice in place of a field is defined under the name that is
made for it. -/
theorem inline (h : Meaning c shapeOf) (hn : n ∈ names c)
    (hshape : shapeOf n = .record fields) (hf : f ∈ fields)
    (halone : standsAlone f.shape = true) :
    fieldHint n f ∈ names c ∧ shapeOf (fieldHint n f) = f.shape := by
  obtain ⟨d, hd, rfl⟩ := List.mem_map.1 hn
  have hplaces := h.place d hd
  rw [h.types hd, hshape, Definition.types_record, Shape.places,
    List.forall₂_map_left_iff, List.forall₂_map_right_iff,
    List.forall₂_same] at hplaces
  have hplace := hplaces f hf
  rw [Definition.hoistedNames_renderField] at hplace
  have hname : (express (fieldHint d.name f) f.shape).1.hoistedNames
      = [fieldHint d.name f] ∧ f.shape.inline? = some f.shape := by
    cases hfield : f.shape with
    | record _ => exact ⟨rfl, rfl⟩
    | choice _ => exact ⟨rfl, rfl⟩
    | _ => rw [hfield] at halone; cases halone
  rw [hname.1, hname.2] at hplace
  obtain ⟨hmem, hsame⟩ := hplace _ (List.mem_singleton_self _)
  exact ⟨hmem, (Option.some.inj hsame).symm⟩

/-- The target of an alias is a component. -/
theorem exported_alias (h : Meaning c shapeOf) (hn : n ∈ names c)
    (hshape : shapeOf n = .named m) : ∃ e ∈ c.entries, e.name = m := by
  obtain ⟨d, hd, rfl⟩ := List.mem_map.1 hn
  refine h.exported d hd (.component m) ?_ m (List.mem_singleton_self _)
  rw [h.types hd, hshape]
  exact List.mem_singleton_self _

/-- So is the named type of a field. -/
theorem exported_field (h : Meaning c shapeOf) (hn : n ∈ names c)
    (hshape : shapeOf n = .record fields) (hf : f ∈ fields)
    (hnamed : f.shape = .named m) : ∃ e ∈ c.entries, e.name = m := by
  obtain ⟨d, hd, rfl⟩ := List.mem_map.1 hn
  refine h.exported d hd (Hoist.renderField c f d.name {}).1 ?_ m ?_
  · rw [h.types hd, hshape, Definition.types_record]
    exact List.mem_map_of_mem hf
  · rw [Hoist.components_renderField, hnamed]
    exact List.mem_singleton_self _

-- ============================================================ finite size

/-- A component that is an alias requires what it stands for. -/
theorem requires_alias (he : e ∈ c.entries) (hshape : e.shape = .named m) :
    c.Requires e.name m := by
  refine ⟨e, he, rfl, ?_⟩
  rw [hshape]
  exact List.mem_singleton_self _

/-- Nothing leads back from a component that is no record: it holds at most
what it is an alias of, and this is no record either. -/
theorem acc_of_not_record (h : Meaning c shapeOf)
    (hwf : WellFounded (flip c.Requires)) (he : e ∈ c.entries)
    (hnot : e.name ∉ c.records) : Acc (flip (Holds c)) e.name := by
  induction hn : e.name using hwf.induction generalizing e with | h n ih => ?_
  subst hn
  rw [h.records] at hnot
  have hshape := (h.entry e he).2
  refine .intro _ fun m hm => ?_
  obtain ⟨hmem, halias | ⟨fields, hrecord, -⟩⟩ := h.holds_iff.1 hm
  · obtain ⟨e', he', rfl⟩ := h.exported_alias hmem halias
    rw [hshape] at halias
    refine ih e'.name (requires_alias he halias) he' (fun hrecord => ?_) rfl
    rw [h.records] at hrecord
    exact hnot (Catalog.mem_namesWhere_of_alias h.distinct he halias hrecord)
  · rw [hshape] at hrecord
    refine absurd (Catalog.mem_namesWhere he ?_) hnot
    rw [hrecord]
    rfl

/-- A field that is not boxed and no name is required if it is a record. -/
theorem required_of_record {inner : List Field} (hshape : f.shape = .record inner)
    (hbox : c.needsBox f n = false) : f.required = true := by
  rw [Catalog.needsBox, hshape] at hbox
  simpa using hbox

/-- A named field that is not boxed is of another type than its owner, and
required or no record. -/
theorem not_boxed_named (hnamed : f.shape = .named m)
    (hbox : c.needsBox f n = false) :
    f.shape.isNamed n = false ∧ (f.required = true ∨ m ∉ c.records) := by
  rw [Catalog.needsBox, hnamed] at hbox
  rw [hnamed, Shape.isNamed]
  simp only [Bool.or_eq_false_iff, Bool.and_eq_false_iff,
    Bool.not_eq_false', Catalog.isRecord, List.contains_eq_mem,
    decide_eq_false_iff_not] at hbox
  exact hbox

/-- The size of a field is less than that of the record. -/
theorem size_field_lt (hf : f ∈ fields) :
    f.shape.size < (Shape.record fields).size := by
  rw [Shape.size]
  induction fields with
  | nil => exact absurd hf List.not_mem_nil
  | cons g rest ih =>
      rw [Shape.sizeOfFields]
      rcases List.mem_cons.1 hf with rfl | hf
      · omega
      · have := ih hf
        omega

/-- Following what a type holds ends if it ends from all components that its
shape requires. The induction is on the size of the shape. -/
theorem acc_of_requires (h : Meaning c shapeOf)
    (hwf : WellFounded (flip c.Requires))
    (hrequires : ∀ e ∈ c.entries, e.name ∈ (shapeOf n).requires n →
      Acc (flip (Holds c)) e.name) : Acc (flip (Holds c)) n := by
  induction hsize : (shapeOf n).size using Nat.strong_induction_on
    generalizing n with | h size ih => ?_
  refine .intro n fun m hm => ?_
  -- what is held is an alias, a named type in a field, or a shape in place
  obtain ⟨hn, halias | ⟨fields, hrecord, f, hf, hbox, hnamed | halone⟩⟩ :=
    h.holds_iff.1 hm
  · obtain ⟨e, he, rfl⟩ := h.exported_alias hn halias
    refine hrequires e he ?_
    rw [halias]
    exact List.mem_singleton_self _
  · obtain ⟨e, he, rfl⟩ := h.exported_field hn hrecord hf hnamed
    obtain ⟨hother, hrequired | hnot⟩ := not_boxed_named hnamed hbox
    · refine hrequires e he ?_
      rw [hrecord]
      refine Shape.requires_record hf hrequired hother ?_
      rw [hnamed]
      exact List.mem_singleton_self _
    · exact h.acc_of_not_record hwf he hnot
  · obtain ⟨halone, rfl⟩ := halone
    -- the shape of a field is smaller, and requires no more than its record
    obtain ⟨-, hshape⟩ := h.inline hn hrecord hf halone
    refine ih (f.shape.size) ?_ (fun e he hmem => ?_) (by rw [hshape])
    · rw [← hsize, hrecord]
      exact size_field_lt hf
    · rw [hshape] at hmem
      refine hrequires e he ?_
      rw [hrecord]
      cases hfield : f.shape with
      | record inner =>
          have hrequired := required_of_record hfield hbox
          have hother : f.shape.isNamed n = false := by rw [hfield]; rfl
          exact Shape.requires_record hf hrequired hother hmem
      | choice _ => rw [hfield] at hmem; exact absurd hmem List.not_mem_nil
      | _ => rw [hfield] at halone; cases halone

/-- A type holds what its shape requires, directly or through the types of
records in place. -/
theorem holds_of_requires (h : Meaning c shapeOf) (hn : n ∈ names c)
    (hm : m ∈ (shapeOf n).requires n) : TransGen (Holds c) n m := by
  induction hsize : (shapeOf n).size using Nat.strong_induction_on
    generalizing n with | h size ih => ?_
  cases hshape : shapeOf n with
  | named target =>
      rw [hshape] at hm
      cases List.mem_singleton.1 hm
      exact .single (h.holds_iff.2 ⟨hn, .inl hshape⟩)
  | record fields =>
      rw [hshape] at hm
      obtain ⟨f, hf, hrequired, hother, hm⟩ := Shape.mem_requires_record hm
      -- a required field of another type than the owner is not boxed
      have hbox : c.needsBox f n = false := by
        unfold Catalog.needsBox
        unfold Shape.isNamed at hother
        split <;> simp_all
      cases hfield : f.shape with
      | named target =>
          rw [hfield] at hm
          cases List.mem_singleton.1 hm
          exact .single (h.holds_iff.2
            ⟨hn, .inr ⟨fields, hshape, f, hf, hbox, .inl hfield⟩⟩)
      | record inner =>
          have halone : standsAlone f.shape = true := by rw [hfield]; rfl
          obtain ⟨hmem, hsame⟩ := h.inline hn hshape hf halone
          have hstep : Holds c n (fieldHint n f) := h.holds_iff.2
            ⟨hn, .inr ⟨fields, hshape, f, hf, hbox, .inr ⟨halone, rfl⟩⟩⟩
          refine .head hstep (ih f.shape.size ?_ hmem ?_ (by rw [hsame]))
          · rw [← hsize, hshape]
            exact size_field_lt hf
          · rw [hsame]
            exact hm
      | _ => rw [hfield] at hm; exact absurd hm List.not_mem_nil
  | _ => rw [hshape] at hm; exact absurd hm List.not_mem_nil

/-- The types have a finite size just when no component requires itself. -/
theorem finiteSize (h : Meaning c shapeOf) :
    FiniteSize c ↔ ∀ n, ¬ TransGen c.Requires n n := by
  refine ⟨fun hfinite n hcycle => ?_, fun hacyclic n => ?_⟩
  · refine hfinite n (TransGen.closed ?_ _ _ hcycle)
    rintro _ m ⟨e, he, rfl, hm⟩
    obtain ⟨hmem, hshape⟩ := h.entry e he
    exact h.holds_of_requires hmem (hshape ▸ hm)
  · have hwf : WellFounded (flip c.Requires) := by
      refine wellFounded_flip (l := c.entries.map (·.name)) ?_ hacyclic
      rintro _ _ ⟨e, he, rfl, -⟩
      exact List.mem_map_of_mem he
    have hentries : ∀ e ∈ c.entries, Acc (flip (Holds c)) e.name := by
      intro e he
      induction hn : e.name using hwf.induction generalizing e with | h n ih => ?_
      subst hn
      refine h.acc_of_requires hwf fun e' he' hmem => ?_
      rw [(h.entry e he).2] at hmem
      exact ih e'.name ⟨e, he, rfl, hmem⟩ e' he' rfl
    exact not_transGen_self_of_acc
      (h.acc_of_requires hwf fun e he _ => hentries e he)

end Meaning

-- ========================================================== faithfulness

/-- Faithful types of a checked document have a meaning. -/
theorem Faithful.meaning {d : Document} {c : Catalog} (h : Faithful c)
    (hd : d.Checked) (hf : d.MapsFinitely) (hdistinct : d.DistinctNames)
    (hc : d.catalog = .ok c) : ∃ shapeOf, Meaning c shapeOf := by
  obtain ⟨shapeOf, hgives, hentry, hplace⟩ := h
  obtain ⟨_, hclosed, -, hexports, -⟩ := definitions_ends hd hf hc
  refine ⟨shapeOf, hgives, hentry, hplace, fun x hx t ht n hn => ?_, ?_, ?_⟩
  · refine hexports n (hclosed.components t ?_ n hn)
    exact List.mem_flatMap.2 ⟨x, hx, ht⟩
  · exact Document.records_of_catalog hc
  · rw [Document.names_of_forall₂
      (Document.forall₂_catalogued (Document.entries_of_catalog hc))]
    exact hdistinct

-- ========================================================= main result

/-- The types of a prepared document on which mapping ends, whose component
schemas have different exported names and whose types are faithful, have a
finite size just when no component requires itself. If no type has the name of
one in a library, so have the types that are read back from their source. -/
theorem finite_size_iff {d : Document} {p : Prepared} (h : d.prepare = .ok p)
    (hf : p.document.MapsFinitely) (hdistinct : p.document.DistinctNames) :
    ∃ c, p.document.catalog = .ok c
      ∧ (Faithful c → (FiniteSize c ↔ ∀ n, ¬ TransGen c.Requires n n))
      ∧ ((∀ n ∈ names c, n ∉ Source.libraryNames) →
          (∀ n m, Source.Holds (steps c) n m ↔ Holds c n m)
            ∧ (Source.FiniteSize (steps c) ↔ FiniteSize c))
      ∧ ∀ s : Settings, ∃ artifacts, s.generate p.document = .ok artifacts
          ∧ ∀ a ∈ artifacts, a.module = "types" →
              a.contents = Source.text (steps c) := by
  have hd := Document.checked_of_prepare h
  obtain ⟨c, m, w, hc, -, -, hwrites⟩ := Settings.planned hd hf
  refine ⟨c, hc, fun hfaithful => ?_, fun hown => ?_, fun s => ?_⟩
  · obtain ⟨shapeOf, hmeaning⟩ := hfaithful.meaning hd hf hdistinct hc
    exact hmeaning.finiteSize
  · rw [Source.FiniteSize, source_holds hd hf hc hown]
    exact ⟨fun n m => Iff.rfl, Iff.rfl⟩
  · obtain ⟨artifacts, hrun, hall⟩ := hwrites s
    exact ⟨artifacts, hrun, fun a ha => (hall a ha).1⟩

-- ============================================================== household

/-- The schema of an address. -/
def addressSchema : Schema where
  types := ["object"]
  properties := [("street", .ofType "string")]

/-- The schema of a person, with a home that has an address, and perhaps a
parent. -/
def personSchema : Schema where
  types := ["object"]
  required := ["home"]
  properties :=
    [("home",
      { types := ["object"], required := ["address"]
        properties := [("address", .ofPointer "#/components/schemas/Address")] }),
     ("parent", .ofPointer "#/components/schemas/Person")]

/-- A document in which a person requires an address, through the home. -/
def household : Document where
  openapi := "3.1.0"
  info := { title := "Household", version := "1" }
  components := some
    { schemas := [("Address", addressSchema), ("Person", personSchema)] }

/-- A person requires an address and an address nothing, so the types of the
household have a finite size. -/
theorem finite_size_household : ∃ p c, household.prepare = .ok p
    ∧ p.document.catalog = .ok c ∧ Faithful c
    ∧ c.Requires "Person" "Address" ∧ FiniteSize c
    ∧ Source.FiniteSize (steps c) := by
  obtain ⟨p, hp, hdocument, hfinite⟩ :=
    Document.prepared_of_shapes (d := household) 4 (by decide +kernel)
      (by decide +kernel)
  have hdistinct : p.document.DistinctNames := by
    rw [hdocument, Document.DistinctNames]
    decide +kernel
  obtain ⟨c, hc, hiff, hsource, -⟩ := finite_size_iff hp hfinite hdistinct
  -- the catalog is evaluated once: what its entries require, and which names are
  -- defined
  have hread : household.canonical.1.catalog.toOption.any (fun c => decide
      ((c.entries.map fun e => (e.name, e.shape.requires e.name))
          = [("Address", []), ("Person", ["Address"])]
        ∧ ((c.entries.flatMap fun e => e.offer :: e.offer.hoists).map
            (·.name)).Nodup
        ∧ (∀ e ∈ c.entries, ∀ k ∈ e.offer.hoists, k.hoists.length = 0)
        ∧ ∀ n ∈ names c, n ∉ Source.libraryNames)) = true := by
    decide +kernel
  rw [← hdocument, hc] at hread
  obtain ⟨hrequires, hnodup, hflat, hown⟩ := of_decide_eq_true hread
  have hfaithful : Faithful c := by
    refine faithful_of_flat
      (fun e he k hk => List.eq_nil_of_length_eq_zero (hflat e he k hk)) hnodup ?_
    rw [Document.names_of_forall₂
      (Document.forall₂_catalogued (Document.entries_of_catalog hc))]
    exact hdistinct
  have honly (n m : String) :
      c.Requires n m ↔ n = "Person" ∧ m = "Address" := by
    have hlisted : c.Requires n m
        ↔ ∃ q ∈ c.entries.map fun e => (e.name, e.shape.requires e.name),
            q.1 = n ∧ m ∈ q.2 := by
      simp only [Catalog.Requires, List.mem_map, exists_exists_and_eq_and]
    rw [hlisted, hrequires]
    simp [eq_comm]
  -- a cycle would begin with a person and end with an address
  have hsize : FiniteSize c := by
    refine (hiff hfaithful).2 fun n hcycle => ?_
    obtain ⟨_, hfirst, -⟩ := TransGen.head'_iff.1 hcycle
    obtain ⟨_, -, hlast⟩ := TransGen.tail'_iff.1 hcycle
    have hperson := ((honly _ _).1 hfirst).1
    have haddress := ((honly _ _).1 hlast).2
    rw [hperson] at haddress
    exact absurd haddress (by decide)
  exact ⟨p, c, hp, hc, hfaithful, (honly _ _).2 ⟨rfl, rfl⟩, hsize,
    (hsource hown).2.2 hsize⟩

-- ================================================================= mirror

/-- A document in which `A` has a required field of type `B`, which is another
name of `A`. -/
def mirror : Document where
  openapi := "3.1.0"
  info := { title := "Mirror", version := "1" }
  components := some
    { schemas :=
        [("A",
          { types := ["object"], required := ["b"]
            properties := [("b", .ofPointer "#/components/schemas/B")] }),
         ("B", .ofPointer "#/components/schemas/A")] }

/-- In the mirror `A` holds itself by the other name, and is not boxed. It is
written so, too. -/
theorem mirror_infinite : ∃ p c, mirror.prepare = .ok p
    ∧ p.document.MapsFinitely ∧ p.document.DistinctNames
    ∧ p.document.catalog = .ok c
    ∧ Holds c "A" "B" ∧ Holds c "B" "A" ∧ ¬ FiniteSize c
    ∧ ¬ Source.FiniteSize (steps c) := by
  obtain ⟨p, hp, hdocument, hfinite⟩ :=
    Document.prepared_of_shapes (d := mirror) 2 (by decide +kernel)
      (by decide +kernel)
  obtain ⟨c, hc, -⟩ := Document.catalog_ok hfinite
  have hd := Document.checked_of_prepare hp
  -- each of the two definitions is looked up and holds the other
  have hread : mirror.canonical.1.catalog.toOption.any (fun c => decide
      ((∃ d ∈ definitions c,
          d.name = "A" ∧ "B" ∈ d.types.flatMap TypeExpr.held)
        ∧ ∃ d ∈ definitions c,
          d.name = "B" ∧ "A" ∈ d.types.flatMap TypeExpr.held)) = true := by
    decide +kernel
  rw [← hdocument, hc] at hread
  obtain ⟨hthere, hback⟩ := of_decide_eq_true hread
  have hwritten {n m : String} (h : Holds c n m) (hm : m ∉ Source.libraryNames) :
      Source.Holds (steps c) n m := (source_holds_iff hd hfinite hc hm).2 h
  refine ⟨p, c, hp, hfinite, ?_, hc, hthere, hback, fun hsize => ?_, fun hsize => ?_⟩
  · rw [hdocument, Document.DistinctNames]
    decide +kernel
  · exact hsize "A" (.head hthere (.single hback))
  · exact hsize "A" (.head (hwritten hthere (by decide))
      (.single (hwritten hback (by decide))))

end TypesModule

end ApiForge
