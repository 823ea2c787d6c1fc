import ApiForge.Proofs.Document.Alike
import ApiForge.Proofs.Reference.Chain
import Mathlib.Logic.Relation
/-!
What the shape of a schema is made from.

# Parts

`Document.parts` lists the schemas whose shapes the shape of a schema asks for.
Everything that one level of `shapeWithin?` does with them is said once, by
`Made`: the shape is built from the shapes of the parts, it is there just when
all of them are, and it mentions no name that none of them mentions
(`made_step`). No later proof looks into the cases of that definition.

# Hereditary properties

A property that holds of the component schemas and passes to what stands in a
schema, unless the schema is a pointer, passes to the parts
(`Hereditary.parts`). The merged properties are the case that needs an
argument: each is a property of the schema that is merged, of a member written
in it, or of a component that a member points to.
-/

namespace ApiForge

-- =============================================================== names

namespace Shape

mutual

/-- The names of component schemas that a shape mentions. -/
def names : Shape → List String
  | named name => [name]
  | list item => item.names
  | map value => value.names
  | record fields => namesOfFields fields
  | _ => []

/-- The names that the fields of a record mention. -/
def namesOfFields : List (FieldOf Shape) → List String
  | [] => []
  | f :: rest => f.shape.names ++ namesOfFields rest

end

end Shape

-- =============================================================== parts

namespace Schema

/-- The parts of an object. -/
def objectParts (s : Schema) : List Schema :=
  if s.properties.isEmpty then (additionalSchema? s.additional).toList
  else s.properties.map (·.2)

/-- The parts of a schema without `allOf`. -/
def plainParts (s : Schema) : List Schema :=
  if !s.oneOf.isEmpty || !s.anyOf.isEmpty then []
  else
    match primaryType s.types with
    | some "array" => s.items.toList
    | some "object" => s.objectParts
    | some _ => []
    | none => if s.properties.isEmpty then [] else s.objectParts

end Schema

namespace Document

/-- The properties that merging a schema gives. -/
def mergedParts (d : Document) (s : Schema) : List Schema :=
  (Declaration.allProperties (d.merge s)).map (·.2)

/-- The schemas whose shapes the shape of a schema asks for. -/
def parts (d : Document) (s : Schema) : List Schema :=
  match s.pointer with
  | some _ => []
  | none =>
    match s.allOf with
    | [] => s.plainParts
    | [single] => if s.properties.isEmpty then [single] else d.mergedParts s
    | _ => d.mergedParts s

/-- The shape of a schema, where `shapeOf` gives the shapes of its parts. -/
def shapeStep? (d : Document) (shapeOf : Schema → Option Shape) (s : Schema) :
    Option Shape :=
  match s.pointer with
  | some p => some (.named (Schema.nameOfPointer p))
  | none =>
    match s.allOf with
    | [] => s.plainShape? shapeOf
    | [single] =>
      if s.properties.isEmpty then shapeOf single else d.mergedShape? shapeOf s
    | _ => d.mergedShape? shapeOf s

/-- One level of depth is one such step. -/
theorem shapeWithin?_succ (d : Document) (depth : Nat) (s : Schema) :
    d.shapeWithin? (depth + 1) s = d.shapeStep? (d.shapeWithin? depth) s := rfl

end Document

/-- The field of a property with a given shape. -/
def Schema.fieldOf (required : List String) (p : String × Schema)
    (shape : Shape) : Field :=
  { name := p.1, description := p.2.ownDescription,
    required := required.contains p.1, shape }

-- ======================================================= made of parts

/-- A shape is made from the shapes of some schemas: it is built from them, and
mentions no further names. -/
def Made (parts : List Schema)
    (step : (Schema → Option Shape) → Option Shape) : Prop :=
  ∃ build : List Shape → Shape,
    (∀ shapeOf, step shapeOf = (parts.mapM shapeOf).map build)
      ∧ ∀ shapes, (build shapes).names ⊆ shapes.flatMap Shape.names

/-- Members of a list that all have a value, with their values. -/
theorem mapM_isSome_iff {α β : Type} {f : α → Option β} {l : List α} :
    (l.mapM f).isSome ↔ ∀ a ∈ l, (f a).isSome := by
  induction l with
  | nil => simp
  | cons a l ih =>
      rw [List.forall_mem_cons, ← ih, List.mapM_cons]
      cases f a <;> cases l.mapM f <;> simp

/-- The values of a list correspond to its members. -/
theorem forall₂_mapM {α β : Type} {f : α → Option β} {l : List α} {r : List β}
    (h : l.mapM f = some r) : List.Forall₂ (fun a b => f a = some b) l r := by
  induction l generalizing r with
  | nil => cases h; exact .nil
  | cons a l ih =>
      rw [List.mapM_cons] at h
      obtain ⟨b, hb, h⟩ := Option.bind_eq_some_iff.1 h
      obtain ⟨rest, hrest, h⟩ := Option.bind_eq_some_iff.1 h
      cases h
      exact .cons hb (ih hrest)

/-- Members keep their values under a function with more values. -/
theorem mapM_mono {α β : Type} {f g : α → Option β} {l : List α} {r : List β}
    (hfg : ∀ a ∈ l, ∀ b, f a = some b → g a = some b)
    (h : l.mapM f = some r) : l.mapM g = some r := by
  induction l generalizing r with
  | nil => exact h
  | cons a l ih =>
      rw [List.mapM_cons] at h ⊢
      obtain ⟨b, hb, h⟩ := Option.bind_eq_some_iff.1 h
      obtain ⟨rest, hrest, h⟩ := Option.bind_eq_some_iff.1 h
      have hl := ih (fun x hx => hfg x (List.mem_cons_of_mem _ hx)) hrest
      rw [hfg a (List.mem_cons_self ..) b hb]
      exact Option.bind_eq_some_iff.2 ⟨b, rfl,
        Option.bind_eq_some_iff.2 ⟨rest, hl, h⟩⟩

namespace Made

variable {parts : List Schema}
  {step : (Schema → Option Shape) → Option Shape}
  {shapeOf : Schema → Option Shape}

/-- A shape that asks for nothing. -/
theorem const {shape : Shape} (h : shape.names = []) :
    Made [] fun _ => some shape :=
  ⟨fun _ => shape, fun _ => rfl, fun _ => h ▸ List.nil_subset _⟩

/-- A shape around that of one schema. -/
theorem wrap (s : Schema) {f : Shape → Shape}
    (h : ∀ shape, (f shape).names = shape.names) :
    Made [s] fun shapeOf => (shapeOf s).map f := by
  refine ⟨fun shapes => f (shapes.headD .any), fun shapeOf => ?_, fun shapes => ?_⟩
  · cases hs : shapeOf s <;> simp [hs]
  · rw [h]
    cases shapes with
    | nil => exact List.nil_subset _
    | cons a l => exact List.subset_append_left _ _

/-- The shape is there just when those of all parts are. -/
theorem isSome_iff (h : Made parts step) :
    (step shapeOf).isSome ↔ ∀ q ∈ parts, (shapeOf q).isSome := by
  obtain ⟨build, hstep, -⟩ := h
  rw [hstep, Option.isSome_map, mapM_isSome_iff]

/-- More shapes for the parts leave the shape as it is. -/
theorem mono (h : Made parts step) {more : Schema → Option Shape}
    (hmore : ∀ q ∈ parts, ∀ x, shapeOf q = some x → more q = some x)
    {shape : Shape} (hs : step shapeOf = some shape) :
    step more = some shape := by
  obtain ⟨build, hstep, -⟩ := h
  rw [hstep] at hs ⊢
  obtain ⟨shapes, hshapes, hbuild⟩ := Option.map_eq_some_iff.1 hs
  exact Option.map_eq_some_iff.2 ⟨shapes, mapM_mono hmore hshapes, hbuild⟩

/-- A name in the shape comes from a part. -/
theorem names (h : Made parts step) {shape : Shape}
    (hs : step shapeOf = some shape) :
    ∀ n ∈ shape.names,
      ∃ q ∈ parts, ∃ x, shapeOf q = some x ∧ n ∈ x.names := by
  obtain ⟨build, hstep, hnames⟩ := h
  rw [hstep] at hs
  obtain ⟨shapes, hshapes, rfl⟩ := Option.map_eq_some_iff.1 hs
  intro n hn
  obtain ⟨x, hx, hn⟩ := List.mem_flatMap.1 (hnames shapes hn)
  obtain ⟨q, hq, hqx⟩ := exists_of_forall₂ (forall₂_mapM hshapes).flip x hx
  exact ⟨q, hq, x, hqx, hn⟩

/-- The fields of a record are there just when the shapes of its properties
are. -/
theorem recordShape?_eq (shapeOf : Schema → Option Shape)
    (properties : Table Schema) (required : List String) :
    Schema.recordShape? shapeOf properties required
      = ((properties.map (·.2)).mapM shapeOf).map fun shapes =>
          .record (List.zipWith (Schema.fieldOf required) properties shapes) := by
  have hfields : List.mapM (fun p : String × Schema =>
        (shapeOf p.2).bind fun x => some (Schema.fieldOf required p x))
          properties
      = ((properties.map (·.2)).mapM shapeOf).map
          (List.zipWith (Schema.fieldOf required) properties) := by
    induction properties with
    | nil => rfl
    | cons p rest ih =>
        rw [List.mapM_cons, ih, List.map_cons, List.mapM_cons]
        cases shapeOf p.2 <;> cases (rest.map (·.2)).mapM shapeOf <;> rfl
  have hstep : Schema.recordShape? shapeOf properties required
      = (List.mapM (fun p : String × Schema =>
          (shapeOf p.2).bind fun x => some (Schema.fieldOf required p x))
            properties).bind fun fields => some (.record fields) := rfl
  rw [hstep, hfields]
  cases (properties.map (·.2)).mapM shapeOf <;> rfl

/-- The fields of a record correspond to its properties. -/
theorem fields_of_recordShape? {shapeOf : Schema → Option Shape}
    {properties : Table Schema} {required : List String} {shape : Shape}
    (h : Schema.recordShape? shapeOf properties required = some shape) :
    ∃ fields, shape = .record fields
      ∧ List.Forall₂ (fun e f => ∃ x, shapeOf e.2 = some x
            ∧ f = Schema.fieldOf required e x) properties fields := by
  obtain ⟨fields, hfields, hshape⟩ := Option.bind_eq_some_iff.1 h
  refine ⟨fields, (Option.some.inj hshape).symm, ?_⟩
  refine (forall₂_mapM hfields).imp fun e f hf => ?_
  obtain ⟨x, hx, hf⟩ := Option.bind_eq_some_iff.1 hf
  exact ⟨x, hx, (Option.some.inj hf).symm⟩

/-- Fields that correspond to properties have their names. -/
theorem names_of_fields {P : String × Schema → Shape → Prop}
    {properties : Table Schema} {required : List String} {fields : List Field}
    (h : List.Forall₂ (fun e f => ∃ x, P e x ∧ f = Schema.fieldOf required e x)
      properties fields) :
    fields.map (·.name) = properties.keys := by
  induction h with
  | nil => rfl
  | cons he _ ih =>
      obtain ⟨x, -, rfl⟩ := he
      exact congrArg (_ :: ·) ih

/-- The fields of a record mention what their shapes mention. -/
theorem names_zipWith (required : List String) (properties : Table Schema)
    (shapes : List Shape) :
    Shape.namesOfFields
        (List.zipWith (Schema.fieldOf required) properties shapes)
      ⊆ shapes.flatMap Shape.names := by
  induction properties generalizing shapes with
  | nil => exact List.nil_subset _
  | cons p rest ih =>
      cases shapes with
      | nil => exact List.nil_subset _
      | cons x shapes =>
          rw [List.zipWith_cons_cons, Shape.namesOfFields, List.flatMap_cons]
          exact List.append_subset.2 ⟨List.subset_append_left _ _,
            List.subset_append_of_subset_right _ (ih shapes)⟩

/-- The record of properties is made from their schemas. -/
theorem record (properties : Table Schema) (required : List String) :
    Made (properties.map (·.2)) fun shapeOf =>
      Schema.recordShape? shapeOf properties required :=
  ⟨_, fun shapeOf => recordShape?_eq shapeOf properties required,
    names_zipWith required properties⟩

/-- The shape of an object is made from its parts. -/
theorem object (s : Schema) :
    Made s.objectParts fun shapeOf => s.objectShape? shapeOf := by
  unfold Schema.objectParts Schema.objectShape?
  split
  · cases s.additional with
    | none => exact const (by rfl)
    | some a =>
        cases a with
        | allowed _ => exact const (by rfl)
        | shaped value => exact wrap (f := .map) value fun _ => rfl
  · exact record s.properties s.required

/-- The shape of a text mentions nothing. -/
theorem names_textShape (format : Option String) (literals : List String) :
    (Schema.textShape format literals).names = [] := by
  unfold Schema.textShape
  split
  · rfl
  · rfl
  · split <;> rfl

/-- The shape of a schema without `allOf` is made from its parts. -/
theorem plain (s : Schema) :
    Made s.plainParts fun shapeOf => s.plainShape? shapeOf := by
  unfold Schema.plainParts Schema.plainShape?
  split
  · exact const rfl
  -- only arrays and objects have parts
  · generalize Schema.primaryType s.types = name
    split
    · cases s.items with
      | none => exact const (by rfl)
      | some item => exact wrap (f := .list) item fun _ => rfl
    · exact object s
    · rename_i harray hobject
      split
      · next h => exact (harray (Option.some.inj h)).elim
      · next h => exact (hobject (Option.some.inj h)).elim
      · exact const (names_textShape _ _)
      · refine const ?_
        split <;> rfl
      · refine const ?_
        split <;> rfl
      · exact const rfl
      · exact const rfl
      · next h => cases h
    · dsimp only
      split
      · exact const rfl
      · exact object s

end Made

/-- The shape of a schema that is no pointer is made from its parts. -/
theorem made_step (d : Document) {s : Schema} (h : s.pointer = none) :
    Made (d.parts s) fun shapeOf => d.shapeStep? shapeOf s := by
  unfold Document.parts Document.shapeStep?
  rw [h]
  dsimp only
  split
  · exact .plain s
  · rename_i single _
    split
    · have hsame := Made.wrap single (f := id) fun _ => rfl
      simpa only [Option.map_id_fun, id] using hsame
    · exact .record _ _
  · exact .record _ _

-- ======================================================== declarations

/-- What merging declares is declared by one of the steps, or behind a pointer
that one of them follows, by the steps of a schema that is no pointer. The
induction is on the budget. -/
theorem Document.declarations_induction {d : Document} {decl : Declaration}
    {motive : List MergeStep → Prop}
    (here : ∀ steps, .declare decl.properties decl.required ∈ steps →
      motive steps)
    (behind : ∀ steps p target, .follow p ∈ steps →
      d.resolveSchema p = .ok target → target.pointer = none →
      motive target.mergeSteps → motive steps)
    {budget : Nat} {stack : List String} {steps : List MergeStep}
    (h : decl ∈ d.declarations budget stack steps) : motive steps := by
  induction budget generalizing stack steps with
  | zero =>
      obtain ⟨step, hstep, h⟩ := List.mem_flatMap.1 h
      cases step with
      | follow p => exact absurd h List.not_mem_nil
      | declare properties required =>
          cases List.mem_singleton.1 h
          exact here steps hstep
  | succ budget ih =>
      obtain ⟨step, hstep, h⟩ := List.mem_flatMap.1 h
      cases step with
      | declare properties required =>
          cases List.mem_singleton.1 h
          exact here steps hstep
      | follow p =>
          dsimp only at h
          split at h
          · exact absurd h List.not_mem_nil
          · split at h
            · rename_i target htarget
              split at h
              · exact absurd h List.not_mem_nil
              · rename_i hpointer
                exact behind steps p target hstep htarget hpointer (ih h)
            · exact absurd h List.not_mem_nil

-- ============================================================ heredity

/-- A property of the component schemas that passes to what stands in a schema,
unless the schema is a pointer. -/
structure Hereditary (d : Document) (Q : Schema → Prop) : Prop where
  component : ∀ e ∈ d.schemas, Q e.2
  inside : ∀ s, Q s → s.pointer = none → ∀ c ∈ s.children, Q c

namespace Hereditary

variable {d : Document} {Q : Schema → Prop} {s : Schema}

/-- The parts of an object stand in it. -/
theorem objectParts_subset (s : Schema) : s.objectParts ⊆ s.children := by
  intro q hq
  unfold Schema.objectParts at hq
  simp only [Schema.children, List.mem_append]
  split at hq
  · simp [hq]
  · simp [List.mem_map.1 hq]

/-- The parts of a schema without `allOf` stand in it. -/
theorem plainParts_subset (s : Schema) : s.plainParts ⊆ s.children := by
  intro q hq
  unfold Schema.plainParts at hq
  split at hq
  · exact absurd hq List.not_mem_nil
  · split at hq
    · simp only [Schema.children, List.mem_append]
      simp [hq]
    · exact objectParts_subset s hq
    · exact absurd hq List.not_mem_nil
    · split at hq
      · exact absurd hq List.not_mem_nil
      · exact objectParts_subset s hq

/-- The members of a schema stand in it. -/
theorem allOf_subset_children (s : Schema) : s.allOf ⊆ s.children := by
  intro m hm
  simp only [Schema.children, List.mem_append]
  simp [hm]

/-- A member that is no pointer is written in the schema that is merged. -/
def Written (s m : Schema) : Prop :=
  m ∈ s.allOf ∧ m.pointer = none

/-- The steps of a member: a pointer is followed, any other is merged. -/
def memberSteps (m : Schema) : List MergeStep :=
  match m.pointer with
  | some p => [.follow p]
  | none => m.mergeSteps

/-- The steps of a list of members, member by member. -/
theorem mergeStepsOfList_eq (l : List Schema) :
    Schema.mergeStepsOfList l = l.flatMap memberSteps := by
  induction l with
  | nil => rfl
  | cons m rest ih =>
      rw [Schema.mergeStepsOfList, ih]
      exact (List.flatMap_cons (f := memberSteps)).symm

/-- Merging a schema merges its members in order, then what it declares. -/
theorem mergeSteps_eq (s : Schema) :
    s.mergeSteps
      = s.allOf.flatMap memberSteps ++ [.declare s.properties s.required] := by
  rw [← mergeStepsOfList_eq]
  cases s
  rw [Schema.mergeSteps]

/-- A step of a merge declares the properties of the schema that is merged or of
one that is written in it, or follows a pointer that stands there as a member.
The induction is on the number of schemas inside. -/
theorem exists_of_mem_mergeSteps {step : MergeStep} (h : step ∈ s.mergeSteps) :
    ∃ t, Relation.ReflTransGen Written s t
      ∧ (step = .declare t.properties t.required
        ∨ ∃ m ∈ t.allOf, ∃ p, m.pointer = some p ∧ step = .follow p) := by
  induction hn : s.nodes.length using Nat.strong_induction_on
    generalizing s with | h n ih => ?_
  rw [mergeSteps_eq] at h
  rcases List.mem_append.1 h with h | h
  · obtain ⟨m, hm, h⟩ := List.mem_flatMap.1 h
    cases hp : m.pointer with
    | some p =>
        rw [memberSteps, hp] at h
        exact ⟨s, .refl, .inr ⟨m, hm, p, hp, List.mem_singleton.1 h⟩⟩
    | none =>
        rw [memberSteps, hp] at h
        have hlt := Schema.length_nodes_lt (allOf_subset_children s hm)
        obtain ⟨t, ht, hstep⟩ := ih _ (hn ▸ hlt) h rfl
        exact ⟨t, .head ⟨hm, hp⟩ ht, hstep⟩
  · exact ⟨s, .refl, .inl (List.mem_singleton.1 h)⟩

/-- What stands in a schema that is written in another has any property that
what stands in the other has, and that passes on inside. -/
theorem children_of_written
    (hinside : ∀ s, Q s → s.pointer = none → ∀ c ∈ s.children, Q c)
    (hs : ∀ c ∈ s.children, Q c) {t : Schema}
    (ht : Relation.ReflTransGen Written s t) : ∀ c ∈ t.children, Q c := by
  induction ht with
  | refl => exact hs
  | tail _ hm ih =>
      exact hinside _ (ih _ (allOf_subset_children _ hm.1)) hm.2

/-- The properties that the steps of a merge declare stand in the schema that
is merged, or in members of members of it; so they have any property that what
stands in the schema has, and that passes on inside. -/
theorem declared
    (hinside : ∀ s, Q s → s.pointer = none → ∀ c ∈ s.children, Q c)
    (hs : ∀ c ∈ s.children, Q c)
    {properties : Table Schema} {required : List String}
    (hstep : .declare properties required ∈ s.mergeSteps) :
    ∀ e ∈ properties, Q e.2 := by
  obtain ⟨t, ht, heq | ⟨_, _, _, _, heq⟩⟩ := exists_of_mem_mergeSteps hstep
  · cases heq
    intro e he
    refine children_of_written hinside hs ht e.2 ?_
    simp only [Schema.children, List.mem_append, List.mem_map]
    simp only [or_assoc]
    exact .inl ⟨e, he, rfl⟩
  · cases heq

/-- The pointers that the steps of a merge follow are those of members with a
hereditary property of the schema that is merged. -/
theorem followed (h : Hereditary d Q) (hs : Q s) (hp : s.pointer = none)
    {p : String} (hstep : .follow p ∈ s.mergeSteps) :
    ∃ m, Q m ∧ m.pointer = some p := by
  obtain ⟨t, ht, heq | ⟨m, hm, p, hmp, heq⟩⟩ := exists_of_mem_mergeSteps hstep
  · cases heq
  · cases heq
    exact ⟨m, children_of_written h.inside (h.inside s hs hp) ht m
      (allOf_subset_children t hm), hmp⟩

/-- The properties that the steps of a merge declare have a hereditary property
of the schema that is merged. -/
theorem mergeSteps (h : Hereditary d Q) (hs : Q s) (hp : s.pointer = none)
    {properties : Table Schema} {required : List String}
    (hstep : .declare properties required ∈ s.mergeSteps) :
    ∀ e ∈ properties, Q e.2 :=
  declared h.inside (h.inside s hs hp) hstep

/-- The properties that merging declares have the property, if those do that
the first steps declare: all others come from component schemas. -/
theorem declarations (h : Hereditary d Q) (budget : Nat)
    (stack : List String) (steps : List MergeStep)
    (hsteps : ∀ properties required, .declare properties required ∈ steps →
      ∀ e ∈ properties, Q e.2) :
    ∀ decl ∈ d.declarations budget stack steps,
      ∀ e ∈ decl.properties, Q e.2 := by
  intro decl hdecl
  refine Document.declarations_induction
    (motive := fun steps =>
      (∀ properties required, .declare properties required ∈ steps →
        ∀ e ∈ properties, Q e.2) → ∀ e ∈ decl.properties, Q e.2)
    (fun steps hstep hsteps => hsteps _ _ hstep) ?_ hdecl hsteps
  intro steps p target _ htarget hpointer ih _
  obtain ⟨a, ha⟩ := Document.resolveSchema_eq_ok_iff.1 htarget
  have hQ : Q target := h.component (a.name, target) ha.holds
  exact ih fun _ _ hd => h.mergeSteps hQ hpointer hd

/-- The properties that merging a schema gives have the property. -/
theorem mergedParts (h : Hereditary d Q) (hs : Q s) (hp : s.pointer = none) :
    ∀ q ∈ d.mergedParts s, Q q := by
  intro q hq
  obtain ⟨e, he, rfl⟩ := List.mem_map.1 hq
  obtain ⟨decl, hdecl, he⟩ := List.mem_flatMap.1 (Table.mem_ofList he)
  exact h.declarations _ [] s.mergeSteps
    (fun _ _ hd => h.mergeSteps hs hp hd) decl hdecl e he

/-- A hereditary property passes to the parts of a schema. -/
theorem parts (h : Hereditary d Q) (hs : Q s) : ∀ q ∈ d.parts s, Q q := by
  intro q hq
  unfold Document.parts at hq
  split at hq
  · exact absurd hq List.not_mem_nil
  · rename_i hp
    split at hq
    · exact h.inside s hs hp q (plainParts_subset s hq)
    · rename_i single hall
      split at hq
      · refine h.inside s hs hp q ?_
        simp only [Schema.children, List.mem_append, hall]
        simp [List.mem_singleton.1 hq]
      · exact h.mergedParts hs hp q hq
    · exact h.mergedParts hs hp q hq

end Hereditary

end ApiForge
