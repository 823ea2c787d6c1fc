import ApiForge.Json.Value
/-!
Trees of typed values, as a reader meets them before it knows what they stand
for. Unlike a JSON value a tree keeps its bindings as written, repeated keys and
keys of any type included, and it may hold a leaf that cannot be read: such a
leaf does no harm where nobody looks at it.
-/

namespace ApiForge

open Numeric (Binary64)

/-- A value of undetermined meaning. -/
inductive Tree where
  | null
  | bool (b : Bool)
  | int (n : Int)
  /-- Zero written with a minus sign. It is the number zero, but no place in an
  order, as the integers without a sign are. -/
  | minusZero
  | float (x : Binary64)
  | str (s : String)
  | seq (items : List Tree)
  | map (bindings : List (Tree × Tree))
  | unreadable
deriving Inhabited

namespace Tree

-- ============================================================ height

mutual

/-- The greatest number of lists and maps around a leaf. -/
def height : Tree → Nat
  | seq items => heightOfItems items + 1
  | map bindings => heightOfBindings bindings + 1
  | _ => 0

/-- The greatest height of the items of a list. -/
def heightOfItems : List Tree → Nat
  | [] => 0
  | t :: rest => max t.height (heightOfItems rest)

/-- The greatest height of the keys and values of a map. -/
def heightOfBindings : List (Tree × Tree) → Nat
  | [] => 0
  | (k, v) :: rest => max (max k.height v.height) (heightOfBindings rest)

end

-- ======================================================= readability

mutual

/-- Whether every leaf can be read. -/
def readable : Tree → Bool
  | seq items => readableItems items
  | map bindings => readableBindings bindings
  | unreadable => false
  | _ => true

/-- Whether every leaf of every item can be read. -/
def readableItems : List Tree → Bool
  | [] => true
  | t :: rest => t.readable && readableItems rest

/-- Whether every leaf of every key and value can be read. -/
def readableBindings : List (Tree × Tree) → Bool
  | [] => true
  | (k, v) :: rest => k.readable && v.readable && readableBindings rest

end

-- ======================================================= JSON values

mutual

/-- The tree of a JSON value. -/
def ofValue : Json.Value → Tree
  | .null => null
  | .bool b => bool b
  | .int n => int n
  | .float x => float x
  | .str s => str s
  | .arr items => seq (ofItems items)
  | .obj fields => map (ofFields fields)

/-- The trees of the items of an array. -/
def ofItems : List Json.Value → List Tree
  | [] => []
  | v :: rest => ofValue v :: ofItems rest

/-- The bindings of the members of an object. -/
def ofFields : List (String × Json.Value) → List (Tree × Tree)
  | [] => []
  | (k, v) :: rest => (str k, ofValue v) :: ofFields rest

end

mutual

/-- The JSON value of a tree whose keys are all strings. A number that is not
finite has no JSON form and becomes null; of a repeated key the last value
counts. -/
def value? : Tree → Option Json.Value
  | null => some .null
  | bool b => some (.bool b)
  | int n => some (.int n)
  | minusZero => some (.int 0)
  | float x => some (if x.isFinite then .float x else .null)
  | str s => some (.str s)
  | seq items => (valuesOf? items).map .arr
  | map bindings => (fieldsOf? bindings).map fun fields => .obj (Table.ofList fields)
  | unreadable => none

/-- The JSON values of a list of trees. -/
def valuesOf? : List Tree → Option (List Json.Value)
  | [] => some []
  | t :: rest =>
    match value? t, valuesOf? rest with
    | some v, some vs => some (v :: vs)
    | _, _ => none

/-- The members of a list of bindings. -/
def fieldsOf? : List (Tree × Tree) → Option (List (String × Json.Value))
  | [] => some []
  | (str k, t) :: rest =>
    match value? t, fieldsOf? rest with
    | some v, some fields => some ((k, v) :: fields)
    | _, _ => none
  | _ => none

end

end Tree

end ApiForge
