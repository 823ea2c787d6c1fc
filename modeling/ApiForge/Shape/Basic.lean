/-!
Shapes: what a schema comes to in a typed language. A reference is a name and is
not followed; what has no better shape is `any`. Made from schemas in
`ApiForge.Shape.OfSchema` and written as types in `ApiForge.Shape.Hoist`.
-/

namespace ApiForge

/-- A property of a record. -/
structure FieldOf (α : Type) where
  /-- The name in transferred data. -/
  name : String
  description : Option String := none
  required : Bool := false
  shape : α

/-- The shape of a value. -/
inductive Shape where
  /-- A component schema, by its exported name. -/
  | named (name : String)
  | list (item : Shape)
  /-- An object with any keys and values of one shape. -/
  | map (value : Shape)
  /-- An object with declared properties. -/
  | record (fields : List (FieldOf Shape))
  /-- One of a closed set of texts. -/
  | choice (literals : List String)
  | text
  | date
  | dateTime
  | int32
  | int64
  | float32
  | float64
  | bool
  | any
deriving Inhabited

/-- A property of a record with its shape. -/
abbrev Field : Type := FieldOf Shape

namespace Shape

/-- Whether a value of the shape can be read from one text. -/
def isScalar : Shape → Bool
  | named _ => false
  | list _ => false
  | map _ => false
  | record _ => false
  | any => false
  | _ => true

mutual

/-- The number of shapes in a shape, itself included. -/
def size : Shape → Nat
  | list item => item.size + 1
  | map value => value.size + 1
  | record fields => sizeOfFields fields + 1
  | _ => 1

/-- The number of shapes in the fields of a record. -/
def sizeOfFields : List (FieldOf Shape) → Nat
  | [] => 0
  | f :: rest => f.shape.size + sizeOfFields rest

end

/-- A shape counts itself. -/
theorem size_pos (s : Shape) : 0 < s.size := by
  cases s <;> simp [size]

end Shape

end ApiForge
