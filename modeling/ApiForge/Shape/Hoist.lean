import ApiForge.Shape.Catalog
/-!
Type expressions of shapes. A record or a choice that stands inside another shape
cannot be written in place: it is hoisted, that is, queued under a name made from
where it stands, and mentioned by that name. Each name is defined once.
-/

namespace ApiForge

/-- A type expression of the target language. -/
inductive TypeExpr where
  /-- A type that the target language or one of its libraries has. -/
  | builtin (text : String)
  /-- The type of a component schema, by its exported name. -/
  | component (name : String)
  /-- The type of a hoisted shape, by the name it is queued under. -/
  | hoisted (name : String)
  | list (item : TypeExpr)
  | map (value : TypeExpr)
  | box (inner : TypeExpr)
  | optional (inner : TypeExpr)
deriving DecidableEq, Repr, Inhabited

/-- The text of a type expression. -/
def TypeExpr.text : TypeExpr → String
  | builtin text => text
  | component name => name
  | hoisted name => name
  | list item => "Vec<" ++ item.text ++ ">"
  | map value => "std::collections::BTreeMap<String, " ++ value.text ++ ">"
  | box inner => "Box<" ++ inner.text ++ ">"
  | optional inner => "Option<" ++ inner.text ++ ">"

/-- A hoisted shape with the name it is to be defined under. -/
structure Hoisted where
  name : String
  shape : Shape

/-- The number of shapes in hoisted shapes. -/
def Hoisted.weight : List Hoisted → Nat
  | [] => 0
  | p :: rest => p.shape.size + weight rest

/-- What remains to be defined, and which names are. -/
structure Hoist where
  /-- Hoisted shapes, oldest first. -/
  pending : List Hoisted := []
  claimed : List String := []

namespace Hoist

/-- The type expression of a shape, with the shapes that it hoists. `hint` names
the place. -/
def express (hint : String) : Shape → TypeExpr × List Hoisted
  | .named name => (.component name, [])
  | .list item =>
    let (e, hoisted) := express (hint ++ "Item") item
    (.list e, hoisted)
  | .map value =>
    let (e, hoisted) := express (hint ++ "Value") value
    (.map e, hoisted)
  | .record fields => (.hoisted hint, [⟨hint, .record fields⟩])
  | .choice literals => (.hoisted hint, [⟨hint, .choice literals⟩])
  | .text => (.builtin "String", [])
  | .date => (.builtin "chrono::NaiveDate", [])
  | .dateTime => (.builtin "chrono::DateTime<chrono::Utc>", [])
  | .int32 => (.builtin "i32", [])
  | .int64 => (.builtin "i64", [])
  | .float32 => (.builtin "f32", [])
  | .float64 => (.builtin "f64", [])
  | .bool => (.builtin "bool", [])
  | .any => (.builtin "serde_json::Value", [])

/-- The type expression of a shape; what it hoists is queued. -/
def render (shape : Shape) (hint : String) (h : Hoist) : TypeExpr × Hoist :=
  let (e, hoisted) := express hint shape
  (e, { h with pending := h.pending ++ hoisted })

/-- The name under which the shape of a field is hoisted. -/
def fieldHint (owner : String) (f : Field) : String :=
  owner ++ Identifier.exported f.name

/-- The type expression of a field of the record `owner`. -/
def renderField (c : Catalog) (f : Field) (owner : String) (h : Hoist) : TypeExpr × Hoist :=
  let (e, h) := h.render f.shape (fieldHint owner f)
  let e := if c.needsBox f owner then .box e else e
  (if f.required then e else .optional e, h)

/-- Takes a name, and says whether it was free. -/
def claim (name : String) (h : Hoist) : Bool × Hoist :=
  if h.claimed.contains name then (false, h)
  else (true, { h with claimed := name :: h.claimed })

/-- Takes the oldest hoisted shape whose name is free from a queue; those before it
are dropped. -/
def firstFree (claimed : List String) : List Hoisted → Option (Hoisted × List Hoisted)
  | [] => none
  | p :: rest => if claimed.contains p.name then firstFree claimed rest else some (p, rest)

/-- Takes the next hoisted shape whose name is free, and its name with it. -/
def next (h : Hoist) : Option Hoisted × Hoist :=
  match firstFree h.claimed h.pending with
  | some (p, rest) => (some p, ⟨rest, p.name :: h.claimed⟩)
  | none => (none, { h with pending := [] })

end Hoist

end ApiForge
