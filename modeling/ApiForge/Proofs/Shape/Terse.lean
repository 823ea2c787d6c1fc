import ApiForge.Proofs.Document.Terse
import ApiForge.Proofs.Shape.Parts
import ApiForge.Shape.Hoist
/-!
Shapes of terse schemas.

A description gets into a shape in one place only, beside the field of a
record. So the shape of a terse schema, in the terse document, is the shape of
the schema with nothing said beside its fields (`shape?_terse`): a merge follows
the same pointers, and one level of a shape asks for the same members. What is
made of a shape does not depend on what is said beside fields, and neither does
the catalog (`Catalog.ofDocument?_terse`).
-/

namespace ApiForge

open Hereditary (memberSteps)

variable {α β : Type}

-- ================================================================= shapes

namespace Shape

mutual

/-- The shape without descriptions. -/
def terse : Shape → Shape
  | list item => list item.terse
  | map value => map value.terse
  | record fields => record (terseFields fields)
  | shape => shape

/-- The fields without descriptions. -/
def terseFields : List (FieldOf Shape) → List (FieldOf Shape)
  | [] => []
  | f :: rest =>
    { f with description := none, shape := f.shape.terse } :: terseFields rest

end

/-- The field without descriptions. -/
def terseField (f : Field) : Field :=
  { f with description := none, shape := f.shape.terse }

theorem terseFields_eq (fields : List Field) :
    terseFields fields = fields.map terseField := by
  induction fields with
  | nil => rfl
  | cons f rest ih => rw [terseFields, ih]; rfl

theorem isScalar_terse (s : Shape) : s.terse.isScalar = s.isScalar := by
  cases s <;> rfl

mutual

/-- Prose does not add to the size of a shape. -/
theorem size_terse (s : Shape) : s.terse.size = s.size := by
  match s with
  | .list item => rw [terse, size, size, size_terse item]
  | .map value => rw [terse, size, size, size_terse value]
  | .record fields => rw [terse, size, size, sizeOfFields_terse fields]
  | .named _ | .choice _ | .text | .date | .dateTime | .int32 | .int64
  | .float32 | .float64 | .bool | .any => rfl

/-- Prose does not add to the size of fields. -/
theorem sizeOfFields_terse (fields : List (FieldOf Shape)) :
    sizeOfFields (terseFields fields) = sizeOfFields fields := by
  match fields with
  | [] => rfl
  | f :: rest =>
      rw [terseFields, sizeOfFields, sizeOfFields, size_terse f.shape,
        sizeOfFields_terse rest]

end

end Shape

-- ================================================================ merging

/-- The step with terse schemas. -/
def MergeStep.terse : MergeStep → MergeStep
  | .follow p => .follow p
  | .declare properties required =>
    .declare (Table.mapValues Schema.terse properties) required

/-- The declaration with terse schemas. -/
def Declaration.terse (d : Declaration) : Declaration :=
  { d with properties := Table.mapValues Schema.terse d.properties }

namespace Schema

theorem pointer_terse (s : Schema) : s.terse.pointer = s.pointer := by
  rw [terse_eq]

theorem ownDescription_terse (s : Schema) : s.terse.ownDescription = none := by
  rw [ownDescription, inline?, pointer_terse, terse_eq]
  cases s.pointer <;> rfl

/-- A terse schema is merged by the same steps. -/
theorem mergeSteps_terse (s : Schema) :
    s.terse.mergeSteps = s.mergeSteps.map MergeStep.terse := by
  induction s using induct with
  | step s ih =>
      have hmember : ∀ m ∈ s.allOf,
          memberSteps m.terse = (memberSteps m).map MergeStep.terse := by
        intro m hm
        rw [memberSteps, memberSteps, pointer_terse]
        cases m.pointer with
        | some p => rfl
        | none => exact ih m (by simp [children, hm])
      rw [Hereditary.mergeSteps_eq, Hereditary.mergeSteps_eq, terse_eq,
        List.map_append, List.flatMap_map, List.map_flatMap,
        List.flatMap_congr hmember]
      rfl

theorem mergePointers_terse (s : Schema) :
    s.terse.mergePointers = s.mergePointers := by
  rw [mergePointers, mergePointers, mergeSteps_terse, List.filterMap_map]
  refine List.filterMap_congr fun step _ => ?_
  cases step <;> rfl

end Schema

namespace Document

theorem mergePointers_terse (d : Document) (s : Schema) :
    d.terse.mergePointers s.terse = d.mergePointers s := by
  rw [mergePointers, mergePointers, schemas_terse, Schema.mergePointers_terse,
    Table.mapValues, List.flatMap_map]
  simp only [Schema.mergePointers_terse]

/-- The same is declared, by terse schemas. -/
theorem declarations_terse (d : Document) (budget : Nat) (stack : List String)
    (steps : List MergeStep) :
    d.terse.declarations budget stack (steps.map MergeStep.terse)
      = (d.declarations budget stack steps).map Declaration.terse := by
  induction budget generalizing stack steps with
  | zero =>
      rw [declarations, declarations, List.flatMap_map, List.map_flatMap]
      refine List.flatMap_congr fun step _ => ?_
      cases step <;> rfl
  | succ budget ih =>
      rw [declarations, declarations, List.flatMap_map, List.map_flatMap]
      refine List.flatMap_congr fun step _ => ?_
      cases step with
      | declare properties required => rfl
      | follow p =>
          dsimp only [MergeStep.terse]
          rw [resolveSchema_terse]
          split
          · rfl
          -- the pointer leads to the same schema, without prose
          cases d.resolveSchema p with
          | error e => rfl
          | ok target =>
              dsimp only [Except.map]
              rw [Schema.pointer_terse]
              cases target.pointer with
              | some q => rfl
              | none =>
                  dsimp only
                  rw [Schema.mergeSteps_terse]
                  exact ih _ _

theorem merge_terse (d : Document) (s : Schema) :
    d.terse.merge s.terse = (d.merge s).map Declaration.terse := by
  rw [merge, merge, mergePointers_terse, Schema.mergeSteps_terse,
    declarations_terse]

end Document

/-- A mapped value is inserted in the same place. -/
theorem Table.insert_mapValues (f : α → β) (k : String) (a : α) (t : Table α) :
    (t.mapValues f).insert k (f a) = (t.insert k a).mapValues f := by
  induction t with
  | nil => rfl
  | cons e rest ih =>
      rw [mapValues_cons, insert, insert]
      split
      · rfl
      · split
        · rfl
        · exact congrArg (_ :: ·) ih

/-- A table of mapped values is the mapped table. -/
theorem Table.ofList_mapValues (f : α → β) (l : List (String × α)) :
    Table.ofList (Table.mapValues f l) = (Table.ofList l).mapValues f := by
  have step (t : Table α) :
      (Table.mapValues f l).foldl (fun t b => t.insert b.1 b.2) (t.mapValues f)
        = (l.foldl (fun t b => t.insert b.1 b.2) t).mapValues f := by
    induction l generalizing t with
    | nil => rfl
    | cons b l ih =>
        rw [mapValues_cons, List.foldl_cons, List.foldl_cons]
        dsimp only
        rw [insert_mapValues]
        exact ih _
  exact step []

/-- The properties of terse declarations are the terse properties. -/
theorem Declaration.allProperties_terse (ds : List Declaration) :
    Declaration.allProperties (ds.map Declaration.terse)
      = Table.mapValues Schema.terse (Declaration.allProperties ds) := by
  rw [allProperties, allProperties, ← Table.ofList_mapValues, Table.mapValues,
    List.flatMap_map, List.map_flatMap]
  rfl

-- ========================================================= shape by shape

/-- What is found for terse members is what is found for the members, terse. -/
theorem mapM_map_some {γ δ : Type} {f : α → Option β} {g : γ → Option δ}
    {t : α → γ} {u : β → δ} (h : ∀ a, g (t a) = (f a).map u) (l : List α) :
    (l.map t).mapM g = (l.mapM f).map (List.map u) := by
  induction l with
  | nil => rfl
  | cons a l ih =>
      rw [List.map_cons, List.mapM_cons, List.mapM_cons, ih, h]
      cases f a <;> cases l.mapM f <;> rfl

section

variable {shapeOf shapeOf' : Schema → Option Shape}

/-- Fields are made of terse properties without prose. -/
theorem zipWith_terse (required : List String) (properties : Table Schema)
    (shapes : List Shape) :
    List.zipWith (Schema.fieldOf required)
        (Table.mapValues Schema.terse properties) (shapes.map Shape.terse)
      = (List.zipWith (Schema.fieldOf required) properties shapes).map
          Shape.terseField := by
  rw [Table.mapValues, List.zipWith_map, List.map_zipWith]
  refine congrArg (List.zipWith · properties shapes) ?_
  funext p shape
  rw [Schema.fieldOf, Schema.ownDescription_terse]
  rfl

/-- The record of terse properties is the record without prose. -/
theorem recordShape?_terse
    (h : ∀ s, shapeOf' s.terse = (shapeOf s).map Shape.terse)
    (properties : Table Schema) (required : List String) :
    Schema.recordShape? shapeOf' (Table.mapValues Schema.terse properties)
        required
      = (Schema.recordShape? shapeOf properties required).map
          Shape.terse := by
  have hvalues : (Table.mapValues Schema.terse properties).map (·.2)
      = (properties.map (·.2)).map Schema.terse := by
    rw [Table.mapValues, List.map_map, List.map_map]
    rfl
  rw [Made.recordShape?_eq, Made.recordShape?_eq, hvalues, mapM_map_some h]
  cases (properties.map (·.2)).mapM shapeOf with
  | none => rfl
  | some shapes =>
      simp only [Option.map_some, zipWith_terse, Shape.terse,
        Shape.terseFields_eq]

/-- The shape of a terse object is its shape without prose. -/
theorem objectShape?_terse
    (h : ∀ s, shapeOf' s.terse = (shapeOf s).map Shape.terse) (s : Schema) :
    s.terse.objectShape? shapeOf'
      = (s.objectShape? shapeOf).map Shape.terse := by
  have hrecord := recordShape?_terse h s.properties s.required
  rw [Schema.objectShape?, Schema.objectShape?, Schema.terse_eq]
  dsimp only
  rw [hrecord, Table.mapValues, List.isEmpty_map]
  split
  · rcases s.additional with _ | _ | value
    · rfl
    · rfl
    · simp only [Option.map_some, Additional.map, h, Option.map_map]
      rfl
  · rfl

/-- The shape of texts has no prose in it. -/
theorem textShape_terse (format : Option String) (literals : List String) :
    (Schema.textShape format literals).terse
      = Schema.textShape format literals := by
  unfold Schema.textShape
  split
  · rfl
  · rfl
  · split <;> rfl

/-- The shape of a terse schema without members is its shape without prose. -/
theorem plainShape?_terse
    (h : ∀ s, shapeOf' s.terse = (shapeOf s).map Shape.terse) (s : Schema) :
    s.terse.plainShape? shapeOf' = (s.plainShape? shapeOf).map Shape.terse := by
  have hobject := objectShape?_terse h s
  have hliterals : s.terse.textLiterals = s.textLiterals := by
    rw [Schema.textLiterals, Schema.terse_eq]
    rfl
  rw [Schema.plainShape?, Schema.plainShape?, hobject, hliterals,
    Schema.terse_eq]
  simp only [List.isEmpty_map, Table.mapValues]
  -- case by case as the mapper asks; only arrays and objects ask for further shapes
  split
  · rfl
  split
  · cases s.items with
    | none => rfl
    | some item =>
        simp only [Option.map_some, h, Option.map_map]
        rfl
  · rfl
  · exact congrArg some (textShape_terse _ _).symm
  · split <;> rfl
  · split <;> rfl
  · rfl
  · rfl
  · split <;> rfl

end

namespace Document

variable {d : Document}

/-- A terse schema is merged to its shape without prose. -/
theorem mergedShape?_terse {shapeOf shapeOf' : Schema → Option Shape}
    (h : ∀ s, shapeOf' s.terse = (shapeOf s).map Shape.terse) (s : Schema) :
    d.terse.mergedShape? shapeOf' s.terse
      = (d.mergedShape? shapeOf s).map Shape.terse := by
  rw [mergedShape?, mergedShape?, merge_terse,
    Declaration.allProperties_terse, List.flatMap_map]
  exact recordShape?_terse h _ _

/-- One level of the shape of a terse schema. -/
theorem shapeStep?_terse {shapeOf shapeOf' : Schema → Option Shape}
    (h : ∀ s, shapeOf' s.terse = (shapeOf s).map Shape.terse) (s : Schema) :
    d.terse.shapeStep? shapeOf' s.terse
      = (d.shapeStep? shapeOf s).map Shape.terse := by
  have hplain := plainShape?_terse h s
  have hmerged := mergedShape?_terse (d := d) h s
  have hallOf : s.terse.allOf = s.allOf.map Schema.terse := by
    rw [Schema.terse_eq]
  have hempty : s.terse.properties.isEmpty = s.properties.isEmpty := by
    rw [Schema.terse_eq, Table.mapValues, List.isEmpty_map]
  rw [shapeStep?, shapeStep?, Schema.pointer_terse, hallOf, hplain, hmerged,
    hempty]
  cases s.pointer with
  | some p => rfl
  | none =>
      rcases s.allOf with _ | ⟨single, _ | _⟩
      · rfl
      · simp only [List.map_cons, List.map_nil, h]
        split <;> rfl
      · rfl

/-- Within any depth a terse schema has its shape without prose. -/
theorem shapeWithin?_terse (depth : Nat) (s : Schema) :
    d.terse.shapeWithin? depth s.terse
      = (d.shapeWithin? depth s).map Shape.terse := by
  induction depth generalizing s with
  | zero => rfl
  | succ depth ih =>
      rw [shapeWithin?_succ, shapeWithin?_succ]
      exact shapeStep?_terse ih s

/-- A terse schema has the terse shape, if there is one. -/
theorem shape?_terse (d : Document) (s : Schema) :
    d.terse.shape? s.terse = (d.shape? s).map Shape.terse := by
  rw [shape?, shape?, schemaCount_terse, shapeWithin?_terse]

end Document

-- ================================================================ catalog

/-- The entry without descriptions. -/
def CatalogEntry.terse (e : CatalogEntry) : CatalogEntry :=
  { e with schema := e.schema.terse, shape := e.shape.terse }

/-- The catalog without the prose of its document. -/
def Catalog.terse (c : Catalog) : Catalog :=
  { c with
    document := c.document.terse, entries := c.entries.map CatalogEntry.terse }

namespace Catalog

/-- The entries of a terse document are its entries without prose. -/
theorem entries?_terse (d : Document) :
    entries? d.terse = (entries? d).map (List.map CatalogEntry.terse) := by
  rw [entries?, entries?, Document.schemas_terse, Table.mapValues]
  refine mapM_map_some (fun e => ?_) d.schemas
  simp only [bind, Option.bind, pure, Document.shape?_terse]
  cases d.shape? e.2 with
  | none => rfl
  | some shape => simp only [Option.map_some, CatalogEntry.terse]

/-- Terse entries have the same aliases. -/
theorem aliases_terse (es : List CatalogEntry) :
    aliases (es.map CatalogEntry.terse) = aliases es := by
  rw [aliases, aliases, List.filterMap_map]
  refine congrArg Table.ofList (List.filterMap_congr fun e _ => ?_)
  obtain ⟨raw, name, schema, shape⟩ := e
  cases shape <;> rfl

/-- Terse entries have the same names of a kind that prose does not change. -/
theorem namesWhere_terse {p : Shape → Bool} (h : ∀ s, p s.terse = p s)
    (es : List CatalogEntry) :
    namesWhere (es.map CatalogEntry.terse) p = namesWhere es p := by
  have hnames : ((es.map CatalogEntry.terse).filter fun e => p e.shape)
        = (es.filter fun e => p e.shape).map CatalogEntry.terse := by
    rw [List.filter_map]
    refine congrArg (List.map _) (List.filter_congr fun e _ => ?_)
    exact h e.shape
  rw [namesWhere, namesWhere, aliases_terse, hnames, List.map_map]
  rfl

theorem isRecordShape_terse (s : Shape) :
    isRecordShape s.terse = isRecordShape s := by
  cases s <;> rfl

/-- A terse document has the terse catalog, if there is one. -/
theorem ofDocument?_terse (d : Document) :
    ofDocument? d.terse = (ofDocument? d).map Catalog.terse := by
  rw [ofDocument?, ofDocument?, entries?_terse]
  cases entries? d with
  | none => rfl
  | some es =>
      simp only [bind, Option.bind, Option.map, pure,
        namesWhere_terse isRecordShape_terse,
        namesWhere_terse Shape.isScalar_terse]
      rfl

variable (c : Catalog)

theorem isScalar_terse (s : Shape) :
    c.terse.isScalar s.terse = c.isScalar s := by
  cases s <;> rfl

theorem needsBox_terse (f : Field) (owner : String) :
    c.terse.needsBox (Shape.terseField f) owner = c.needsBox f owner := by
  obtain ⟨name, description, required, shape⟩ := f
  cases shape <;> rfl

end Catalog

end ApiForge
