import ApiForge.Shape.OfSchema
/-!
The catalog of a document: its named schemas with their shapes, and which names
stand for records and which for scalars. A name whose shape is only another name
is of the kind that this one is of, so the kinds are closed under such aliases.
-/

namespace ApiForge

/-- A named schema with its shape. -/
structure CatalogEntry where
  /-- The name in the document. -/
  raw : String
  /-- The exported name. -/
  name : String
  schema : Schema
  shape : Shape

/-- The named schemas of a document, with the names of records and of scalars. -/
structure Catalog where
  document : Document
  entries : List CatalogEntry
  records : List String
  scalars : List String

namespace Catalog

/-- Adds the aliases whose target is in a list of names, one after the other. -/
def closeOnce (aliases : Table String) (names : List String) : List String :=
  aliases.foldl (fun names (name, target) =>
    if names.contains target && !names.contains name then names ++ [name] else names) names

/-- Closes a list of names under aliases. Every round but the last adds a name, so
as many rounds as there are aliases suffice. -/
def close (aliases : Table String) (names : List String) : Nat → List String
  | 0 => names
  | rounds + 1 => close aliases (closeOnce aliases names) rounds

/-- The catalog entries of a document, nothing if a schema has no finite shape. -/
def entries? (d : Document) : Option (List CatalogEntry) :=
  List.mapM (fun (p : String × Schema) => do
    return ⟨p.1, Identifier.typeName p.1 "Schema", p.2, ← d.shape? p.2⟩) d.schemas

/-- The aliases among entries; of two for one name the later counts. -/
def aliases (entries : List CatalogEntry) : Table String :=
  Table.ofList (entries.filterMap fun e =>
    match e.shape with
    | .named target => some (e.name, target)
    | _ => none)

/-- The names of entries whose shapes satisfy `p`, and their aliases. -/
def namesWhere (entries : List CatalogEntry) (p : Shape → Bool) : List String :=
  let aliases := aliases entries
  close aliases ((entries.filter fun e => p e.shape).map (·.name)) aliases.length

/-- Whether a shape is a record. -/
def isRecordShape : Shape → Bool
  | .record _ => true
  | _ => false

/-- The catalog of a document, nothing if a schema has no finite shape. -/
def ofDocument? (d : Document) : Option Catalog := do
  let entries ← entries? d
  return ⟨d, entries, namesWhere entries isRecordShape, namesWhere entries Shape.isScalar⟩

variable (c : Catalog)

/-- Whether a name stands for a record, directly or through aliases. -/
def isRecord (name : String) : Bool :=
  c.records.contains name

/-- Whether values of a shape can be read from one text. -/
def isScalar (s : Shape) : Bool :=
  match s with
  | .named name => c.scalars.contains name
  | s => s.isScalar

/-- Whether a field of the record `owner` is stored behind a pointer: an optional
record, and a field of the owner's own type. -/
def needsBox (f : Field) (owner : String) : Bool :=
  match f.shape with
  | .record _ => !f.required
  | .named name => name == owner || (!f.required && c.isRecord name)
  | _ => false

end Catalog

end ApiForge
