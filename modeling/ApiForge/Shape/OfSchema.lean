import ApiForge.Document.Canonical
import ApiForge.Identifier
import ApiForge.Reference.Resolve
import ApiForge.Shape.Basic
/-!
The shape of a schema. References are followed in one place only, where the
members of `allOf` are merged into one record: there a pointer that is already
being merged is passed over. A merged property may refer back to the record it
was merged into, through an `allOf` of its own, and then no shape is large enough;
`Document.shape?` answers nothing for such a schema.
-/

namespace ApiForge

-- ============================================================ merging

/-- A step of a merge. -/
inductive MergeStep where
  /-- Merges what a pointer leads to. -/
  | follow (pointer : String)
  /-- Declares properties, and which properties are required. -/
  | declare (properties : Table Schema) (required : List String)

namespace Schema

mutual

/-- The steps that merge a schema: its members in order, then what it declares
itself. A member written in place is merged in place. -/
def mergeSteps (s : Schema) : List MergeStep :=
  match s with
  | { allOf, properties, required, .. } =>
    mergeStepsOfList allOf ++ [.declare properties required]
termination_by structural s

/-- The steps that merge the members of a list. -/
def mergeStepsOfList (l : List Schema) : List MergeStep :=
  match l with
  | [] => []
  | m :: rest =>
    let steps := m.mergeSteps
    (match m.pointer with
      | some p => [.follow p]
      | none => steps) ++ mergeStepsOfList rest
termination_by structural l

end

/-- The pointers that merging a schema meets before it follows any. -/
def mergePointers (s : Schema) : List String :=
  s.mergeSteps.filterMap fun step =>
    match step with
    | .follow p => some p
    | .declare _ _ => none

end Schema

/-- Properties with the names of the required ones. -/
structure Declaration where
  properties : Table Schema
  required : List String

namespace Document

/-- What merging declares, in order. `stack` holds the pointers that are being
followed, and `budget` bounds how many more may be. A pointer on the stack, one
that leads to no schema, and one that leads to a further pointer declare
nothing. -/
def declarations (d : Document) : Nat → List String → List MergeStep → List Declaration
  | 0, _, steps =>
    steps.flatMap fun step =>
      match step with
      | .declare properties required => [⟨properties, required⟩]
      | .follow _ => []
  | budget + 1, stack, steps =>
    steps.flatMap fun step =>
      match step with
      | .declare properties required => [⟨properties, required⟩]
      | .follow p =>
        if stack.contains p then []
        else
          match d.resolveSchema p with
          | .ok target =>
            match target.pointer with
            | some _ => []
            | none => declarations d budget (p :: stack) target.mergeSteps
          | .error _ => []

/-- The pointers that a merge may follow: those of the shared schemas and of the
schema where it starts. -/
def mergePointers (d : Document) (s : Schema) : List String :=
  (s.mergePointers ++ d.schemas.flatMap fun (_, s) => s.mergePointers).eraseDups

/-- What merging a schema declares. No pointer is on the stack twice, so the
budget is never used up. -/
def merge (d : Document) (s : Schema) : List Declaration :=
  d.declarations (d.mergePointers s).length [] s.mergeSteps

end Document

/-- The properties of several declarations; of two for one name the later counts. -/
def Declaration.allProperties (ds : List Declaration) : Table Schema :=
  Table.ofList (ds.flatMap fun d => d.properties)

-- ============================================================= shapes

namespace Schema

/-- The exported name of the schema that a pointer names. -/
def nameOfPointer (pointer : String) : String :=
  Identifier.typeName (Pointer.lastName pointer) "Schema"

/-- The description of a schema that is not a reference. -/
def ownDescription (s : Schema) : Option String :=
  s.inline?.bind fun s => s.description

/-- The shape of a text with a given format and given literals. -/
def textShape (format : Option String) (literals : List String) : Shape :=
  match format with
  | some "date-time" => .dateTime
  | some "date" => .date
  | _ => if literals.isEmpty then .text else .choice literals.eraseDups

/-- The record of properties whose shapes `shapeOf` finds. -/
def recordShape? (shapeOf : Schema → Option Shape) (properties : Table Schema)
    (required : List String) : Option Shape := do
  let field (p : String × Schema) : Option Field := do
    return { name := p.1, description := p.2.ownDescription, required := required.contains p.1,
             shape := ← shapeOf p.2 }
  let fields ← List.mapM field properties
  return .record fields

/-- The shape of an object: a record if it declares properties, else a map. -/
def objectShape? (shapeOf : Schema → Option Shape) (s : Schema) : Option Shape :=
  if s.properties.isEmpty then
    match s.additional with
    | some (.shaped value) => (shapeOf value).map .map
    | _ => some (.map .any)
  else recordShape? shapeOf s.properties s.required

/-- The shape of a schema without `allOf`. -/
def plainShape? (shapeOf : Schema → Option Shape) (s : Schema) : Option Shape :=
  if !s.oneOf.isEmpty || !s.anyOf.isEmpty then some .any
  else
    match primaryType s.types with
    | some "array" =>
      match s.items with
      | some item => (shapeOf item).map .list
      | none => some (.list .any)
    | some "object" => objectShape? shapeOf s
    | some "string" => some (textShape s.format s.textLiterals)
    | some "integer" => some (if s.format == some "int64" then .int64 else .int32)
    | some "number" => some (if s.format == some "float" then .float32 else .float64)
    | some "boolean" => some .bool
    | some _ => some .any
    | none => if s.properties.isEmpty then some .any else objectShape? shapeOf s

end Schema

namespace Document

/-- The record that merging a schema gives. -/
def mergedShape? (d : Document) (shapeOf : Schema → Option Shape) (s : Schema) :
    Option Shape :=
  let ds := d.merge s
  Schema.recordShape? shapeOf (Declaration.allProperties ds) (ds.flatMap (·.required))

/-- The shape of a schema, if `depth` bounds how deep shapes nest in it. A single
member of `allOf` beside which no properties stand is the schema itself. -/
def shapeWithin? (d : Document) : Nat → Schema → Option Shape
  | 0, _ => none
  | depth + 1, s =>
    match s.pointer with
    | some p => some (.named (Schema.nameOfPointer p))
    | none =>
      match s.allOf with
      | [] => s.plainShape? (shapeWithin? d depth)
      | [single] =>
        if s.properties.isEmpty then shapeWithin? d depth single
        else d.mergedShape? (shapeWithin? d depth) s
      | _ => d.mergedShape? (shapeWithin? d depth) s

/-- The number of schemas in a document. A schema met again inside itself has no
shape, so shapes nest no deeper than this. -/
def schemaCount (d : Document) : Nat :=
  d.canonical.2

/-- The shape of a schema of the document, nothing if it has no finite one. -/
def shape? (d : Document) (s : Schema) : Option Shape :=
  d.shapeWithin? (d.schemaCount + 1) s

end Document

end ApiForge
