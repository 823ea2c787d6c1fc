import ApiForge.Text.Quoted
import ApiForge.Numeric.Shortest
import ApiForge.Yaml.Typing
/-!
Items: the values of a document as its reader meets them. An item is a tree,
or a YAML node whose scalars have no type until it is known what they stand for:
where a text is expected a plain scalar is that text, whatever it spells. An item
that may be one of several things is first made a tree, which settles the types.

`Item.fields` answers the fields of a record: by name, or by their order when the
item is a list. Main consumer: `ApiForge.Document.Read`.
-/

namespace ApiForge

-- ============================================================ errors

/-- Why a value cannot be decoded. -/
inductive ReadError where
  /-- A value of one type stands where another is expected. -/
  | unexpected (found expected : String)
  /-- A variant is given by a map with other than one key. -/
  | notSingle
  | missing (field : String)
  | repeated (field : String)
  /-- A record that admits no other fields has one. -/
  | unknownField (name : String)
  | unknownVariant (name : String) (known : List String)
  /-- No form that the value may take fits. -/
  | noForm (kind : String)
  /-- A list has too few or too many items. -/
  | length (found : Nat) (expected : String)
  /-- A leaf cannot be read. -/
  | unreadable
  | tooDeep
  /-- Aliases are followed too often. -/
  | tooManyAliases
deriving DecidableEq

/-- A name as error messages show it. -/
def ticked (s : String) : String :=
  "\x60" ++ s ++ "\x60"

/-- The wording of a decoding error. -/
def ReadError.message : ReadError → String
  | unexpected found expected => "invalid type: " ++ found ++ ", expected " ++ expected
  | notSingle => "invalid value: map, expected map with a single key"
  | missing field => "missing field " ++ ticked field
  | repeated field => "duplicate field " ++ ticked field
  | unknownField name => "unknown field " ++ ticked name
  | unknownVariant name known =>
    "unknown variant " ++ ticked name ++ ", expected one of " ++
      ", ".intercalate (known.map ticked)
  | noForm kind => "data did not match any variant of untagged enum " ++ kind
  | length found expected =>
    "invalid length " ++ toString found ++ ", expected " ++ expected
  | unreadable => "unreadable value"
  | tooDeep => "recursion limit exceeded"
  | tooManyAliases => "repetition limit exceeded"

/-- A reading step: it may fail, and counts how often it has followed an alias. -/
abbrev Read := StateT Nat (Except ReadError)

namespace Read

/-- Fails. -/
def fail {α : Type} (e : ReadError) : Read α := throw e

/-- The first step if it succeeds, else the second. -/
def orElse {α : Type} (a b : Read α) : Read α := fun n =>
  match a.run n with
  | .ok r => .ok r
  | .error _ => b.run n

end Read

/-- A tree as error messages name it. -/
def Tree.describe : Tree → String
  | .null => "null"
  | .bool b => "boolean " ++ ticked (if b then "true" else "false")
  | .int n => "integer " ++ ticked (toString n)
  | .minusZero => "integer " ++ ticked "0"
  | .float x => "floating point " ++ ticked x.text
  | .str s => "string " ++ Text.Quoted.encode s
  | .seq _ => "sequence"
  | .map _ => "map"
  | .unreadable => "unreadable value"

-- ======================================================= YAML places

/-- A node with what is needed to read it: the targets of aliases, how often they
may be followed in all, and how deep the node's contents may nest. -/
structure Place where
  targets : List (Nat × Yaml.Node)
  limit : Nat
  depth : Nat
  node : Yaml.Node

namespace Place

/-- How deep a document may nest. -/
def maxDepth : Nat := 128

/-- Another node in the same surroundings. -/
def turnTo (p : Place) (node : Yaml.Node) : Place :=
  { p with node }

/-- The place inside a container. -/
def inner (p : Place) : Read Place :=
  match p.depth with
  | 0 => .fail .tooDeep
  | d + 1 => return { p with depth := d }

/-- The place of the node itself, where an alias has been followed. -/
def follow (p : Place) : Read Place := do
  match p.node with
  | .alias target =>
    let jumps := (← get) + 1
    if p.limit < jumps then .fail .tooManyAliases
    else
      set jumps
      match p.targets.lookup target with
      | some node => return p.turnTo node
      | none => .fail .unreadable
  | _ => return p

/-- Whether the node is one where nothing is written. -/
def isBare (p : Place) : Bool :=
  match p.node with
  | .scalar _ text style => text.isEmpty && style == .plain
  | _ => false

/-- The text of a scalar. -/
def text (expected : String) (p : Place) : Read String := do
  match (← p.follow).node with
  | .scalar _ s _ => return s
  | .seq _ _ => .fail (.unexpected "sequence" expected)
  | _ => .fail (.unexpected "map" expected)

/-- The tree of a node in which every scalar has its own type. With `textKeys`
the keys of maps are texts as written. -/
def tree (textKeys : Bool) (targets : List (Nat × Yaml.Node)) (limit : Nat) :
    Nat → Yaml.Node → Read Tree
  | 0, node => do
    match (← follow ⟨targets, limit, 0, node⟩).node with
    | .scalar tag text style => return Yaml.typedScalar tag text style
    | _ => .fail .tooDeep
  | depth + 1, node => do
    match (← follow ⟨targets, limit, depth + 1, node⟩).node with
    | .scalar tag text style => return Yaml.typedScalar tag text style
    | .seq tag items =>
      if tag.any Yaml.Tag.isLocal then .fail .unreadable
      return .seq (← items.mapM (tree textKeys targets limit depth))
    | .map tag bindings =>
      if tag.any Yaml.Tag.isLocal then .fail .unreadable
      let bindings ← bindings.mapM fun (k, v) => do
        let k ←
          if textKeys then Tree.str <$> text "a string" ⟨targets, limit, depth, k⟩
          else tree textKeys targets limit depth k
        return (k, ← tree textKeys targets limit depth v)
      return .map bindings
    | .alias _ => .fail .unreadable

end Place

-- ============================================================= items

/-- A value in a document. -/
inductive Item where
  /-- A tree: `settled` says that it was made from an item of undetermined
  meaning, and is not the document's own. -/
  | tree (settled : Bool) (t : Tree)
  | place (p : Place)
  /-- A document in which nothing is written. -/
  | nothing

/-- How a record is written: what error messages call it, and its fields in
declared order. -/
structure Layout where
  title : String
  fields : List String
  required : List String := []

/-- The fields of a record that an item gives, in written order. -/
structure Given where
  fields : List (String × Item)
  /-- The number of items, when the record is given as a list. -/
  listed : Option Nat := none
  /-- The fault of a list that is too long, met after its fields are read. -/
  surplus : Option ReadError := none

namespace Item

/-- A bound on how deep the contents of an item nest. -/
def height : Item → Nat
  | tree _ t => t.height
  | place p => p.depth
  | nothing => 0

/-- The error that an item is not what is expected. -/
def unexpected {α : Type} (item : Item) (expected : String) : Read α :=
  let found := match item with
    | tree _ .unreadable => none
    | tree _ t => some t.describe
    | place ⟨_, _, _, .scalar _ s _⟩ => some ("string " ++ Text.Quoted.encode s)
    | place ⟨_, _, _, .seq _ _⟩ => some "sequence"
    | place ⟨_, _, _, _⟩ => some "map"
    | nothing => some "null"
  match found with
  | some found => .fail (.unexpected found expected)
  | none => .fail .unreadable

/-- Makes an item a tree, which settles the types of its scalars. -/
def settle (item : Item) : Read Tree :=
  match item with
  | tree _ t => if t.readable then pure t else .fail .unreadable
  | place p => do
    let t ← Place.tree false p.targets p.limit p.depth p.node
    if t.readable then pure t else .fail .unreadable
  | nothing => pure .null

/-- The JSON value of an item. -/
def value (item : Item) : Read Json.Value := do
  let t ← match item with
    | tree _ t => pure t
    | place p => Place.tree true p.targets p.limit p.depth p.node
    | nothing => pure .null
  match t.value? with
  | some v => return v
  | none => .fail .unreadable

/-- The text of an item. -/
def text (item : Item) : Read String :=
  match item with
  | tree _ (.str s) => pure s
  | place p => p.text "a string"
  | item => item.unexpected "a string"

/-- The truth value of an item. A block scalar counts if its tag says so. -/
def flag (item : Item) : Read Bool := do
  match item with
  | tree _ (.bool b) => return b
  | place p =>
    let p ← p.follow
    match p.node with
    | .scalar tag s style =>
      let counts := style == .plain
        || (style == .literal && tag == some (.standard "bool"))
      match Yaml.boolOf? s with
      | some b => if counts then return b else (place p).unexpected "a boolean"
      | none => (place p).unexpected "a boolean"
    | _ => (place p).unexpected "a boolean"
  | item => item.unexpected "a boolean"

/-- Whether a field that may be left out is. -/
def isAbsent (item : Item) : Read Bool := do
  match item with
  | tree _ .null => return true
  | nothing => return true
  | place p =>
    match (← p.follow).node with
    | .scalar tag s .plain =>
      match tag with
      | none => return s.isEmpty || Yaml.isNullWord s
      | some tag =>
        if tag == .standard "null" then
          if Yaml.isNullWord s then return true else .fail .unreadable
        else return false
    | _ => return false
  | _ => return false

/-- The item that an alias stands for, any other item itself. -/
def target (item : Item) : Read Item := do
  match item with
  | place p => return place (← p.follow)
  | item => return item

/-- Reads a field that may be left out. -/
def optional {α : Type} (read : Item → Read α) (item : Item) : Read (Option α) := do
  let item ← item.target
  if ← item.isAbsent then return none else return some (← read item)

/-- The items of a list. -/
def list (item : Item) : Read (List Item) := do
  match item with
  | tree settled (.seq items) => return items.map (tree settled)
  | nothing => return []
  | place p =>
    let p ← p.follow
    match p.node with
    | .seq _ items =>
      let p ← p.inner
      return items.map fun n => place (p.turnTo n)
    | _ => if p.isBare then return [] else (place p).unexpected "a sequence"
  | item => item.unexpected "a sequence"

/-- A key of a map as a text. -/
def keyText (t : Tree) : Read String :=
  match t with
  | .str s => pure s
  | t => unexpected (tree true t) "a string"

/-- The bindings of a map with texts for keys. -/
def bindings (item : Item) : Read (List (String × Item)) := do
  match item with
  | tree settled (.map bs) => bs.mapM fun (k, v) => return (← keyText k, tree settled v)
  | nothing => return []
  | place p =>
    let p ← p.follow
    match p.node with
    | .map _ bs =>
      let p ← p.inner
      bs.mapM fun (k, v) => return (← (p.turnTo k).text "a string", place (p.turnTo v))
    | _ => if p.isBare then return [] else (place p).unexpected "a map"
  | item => item.unexpected "a map"

/-- Reads a table; of two bindings for one key the later counts. -/
def table {α : Type} (read : Item → Read α) (item : Item) : Read (Table α) := do
  let entries ← (← item.bindings).mapM fun (k, v) => return (k, ← read v)
  return Table.ofList entries

/-- Reads a list. -/
def listOf {α : Type} (read : Item → Read α) (item : Item) : Read (List α) := do
  (← item.list).mapM read

-- ========================================================== variants

/-- Reads a word that is given as a text, or as the only key of a map without a
value. With `owned` an empty map is no value either. -/
def variant {α : Type} (item : Item) (owned : Bool) (known : List (String × α)) :
    Read α := do
  let choose (key : Tree) : Read α :=
    match key with
    | .str s =>
      match known.lookup s with
      | some a => return a
      | none => .fail (.unknownVariant s (known.map (·.1)))
    | .int n =>
      match if n < 0 then none else known[n.toNat]? with
      | some e => return e.2
      | none => .fail .unreadable
    | t => (tree true t).unexpected "variant identifier"
  match ← item.settle with
  | .str s => choose (.str s)
  | .map [(key, value)] =>
    let a ← choose key
    match value with
    | .null => return a
    | .map [] => if owned then return a else (tree true value).unexpected "unit"
    | t => (tree true t).unexpected "unit"
  | .map _ => .fail .notSingle
  | t => (tree true t).unexpected "string or map"

-- ============================================================ records

/-- The field that a key names: by its name, or in a settled tree by its number.
A key that names none is passed over. -/
def fieldOf? (layout : Layout) (key : Tree) : Read (Option String) :=
  match key with
  | .str s => pure (layout.fields.find? (· == s))
  | .int n => if n < 0 then .fail .unreadable else pure layout.fields[n.toNat]?
  | _ => .fail .unreadable

/-- Refuses a record that gives one field twice. -/
def distinct (fields : List (String × Item)) : Read (List (String × Item)) :=
  match fields.find? fun f => 1 < (fields.filter fun g => g.1 == f.1).length with
  | some f => .fail (.repeated f.1)
  | none => pure fields

/-- The fields of a record. -/
def fields (layout : Layout) (item : Item) : Read Given := do
  match item with
  | tree settled (.map bs) =>
    let named ← bs.filterMapM fun (k, v) => do
      return (← fieldOf? layout k).map fun f => (f, tree settled v)
    return { fields := ← distinct named }
  | tree settled (.seq items) =>
    let known := layout.fields.length
    let surplus : Option ReadError :=
      if items.length ≤ known then none
      else if settled then
        let few := toString known ++ (if known == 1 then " element" else " elements")
        some (.length items.length (few ++ " in sequence"))
      else some (.length items.length "fewer elements in array")
    return { fields := layout.fields.zip (items.map (tree settled)),
             listed := some items.length, surplus }
  | nothing => return { fields := [] }
  | place p =>
    let p ← p.follow
    match p.node with
    | .map _ bs =>
      let p ← p.inner
      let named ← bs.filterMapM fun (k, v) => do
        let key ← (p.turnTo k).text "a string"
        return (layout.fields.find? (· == key)).map fun f => (f, place (p.turnTo v))
      return { fields := ← distinct named }
    | _ => if p.isBare then return { fields := [] } else (place p).unexpected layout.title
  | item => item.unexpected layout.title

/-- Reads a record: `set` takes in one field after the other, from the value that
a record without fields has. -/
def record {α : Type} (layout : Layout) (start : α) (set : α → String → Item → Read α)
    (item : Item) : Read α := do
  let given ← item.fields layout
  let a ← given.fields.foldlM (fun a f => set a f.1 f.2) start
  match layout.required.find? fun f => !given.fields.any fun g => g.1 == f with
  | some f =>
    match given.listed with
    | some n =>
      let count := toString layout.fields.length
      let elements := if layout.fields.length == 1 then " element" else " elements"
      .fail (.length n (layout.title ++ " with " ++ count ++ elements))
    | none => .fail (.missing f)
  | none =>
    match given.surplus with
    | some e => .fail e
    | none => return a

end Item

end ApiForge
