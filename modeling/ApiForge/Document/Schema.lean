import ApiForge.Json.Value
/-!
Schemas, restricted to the keywords that shape generated types. A schema with a
pointer stands for the component it points to; keywords written beside the
pointer are kept but never consulted, so `inline?` answers nothing for it.
-/

namespace ApiForge

/-- What an object may hold beyond its named properties. -/
inductive Additional (α : Type) where
  | allowed (yes : Bool)
  | shaped (schema : α)

/-- A schema. -/
structure Schema where
  /-- The reference pointer, never empty. -/
  pointer : Option String := none
  /-- Type names; in canonical form distinct, with `null` last. -/
  types : List String := []
  format : Option String := none
  title : Option String := none
  description : Option String := none
  properties : List (String × Schema) := []
  items : Option Schema := none
  additional : Option (Additional Schema) := none
  required : List String := []
  literals : List Json.Value := []
  allOf : List Schema := []
  oneOf : List Schema := []
  anyOf : List Schema := []
  negated : Option Schema := none
  /-- The older way to admit null; absent in canonical form. -/
  nullable : Option Bool := none
  deprecated : Bool := false

instance : Inhabited Schema := ⟨{}⟩

namespace Schema

/-- The name of the type that only null has. -/
def nullName : String := "null"

/-- The schema itself, unless it stands for another. -/
def inline? (s : Schema) : Option Schema :=
  match s.pointer with
  | some _ => none
  | none => some s

/-- A schema that points to a component; an empty pointer is none. -/
def ofPointer (pointer : String) : Schema :=
  { pointer := if pointer.isEmpty then none else some pointer }

/-- A schema with one type name. -/
def ofType (name : String) : Schema :=
  { types := [name] }

/-- The first type name other than that of null. -/
def primaryType (types : List String) : Option String :=
  types.find? fun t => t != nullName

/-- Whether an object must have a property. -/
def requires (s : Schema) (property : String) : Bool :=
  s.required.contains property

/-- The literals that are strings. -/
def textLiterals (s : Schema) : List String :=
  s.literals.filterMap Json.Value.text?

end Schema

end ApiForge
