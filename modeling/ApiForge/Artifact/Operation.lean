import ApiForge.Artifact.Definition
import ApiForge.Numeric.IntegerText
import ApiForge.Reference.Check
/-!
Operations as the server sees them: their parameters with those of the path, the
type of their body, and a variant for every answer with a status code. Hoisted
shapes are left in the queue for the artifact to define.
-/

namespace ApiForge

-- ========================================================== parameters

namespace Parameter

/-- Whether two parameters have the same name and place. -/
def sameSlot (a b : Parameter) : Bool :=
  a.name == b.name && a.place == b.place

/-- Puts a parameter in the place of the one it overrides, or at the end. -/
def put (p : Parameter) : List Parameter → List Parameter
  | [] => [p]
  | q :: rest => if sameSlot p q then p :: rest else q :: put p rest

/-- Resolves parameters one after the other and puts each to those before it. -/
def mergeFrom (d : Document) (context : String) :
    Nat → List Parameter → List (Referable Parameter) → Except ReferenceError (List Parameter)
  | _, merged, [] => .ok merged
  | i, merged, .inline p :: rest => mergeFrom d context (i + 1) (put p merged) rest
  | i, merged, .pointer target :: rest =>
    match d.resolveParameter target with
    | .ok p => mergeFrom d context (i + 1) (put p merged) rest
    | .error e => .error ⟨context ++ " parameter #" ++ toString i, e⟩

/-- The parameters of an operation: those of its path, in their order, each
overridden by one of its own with the same name and place, then its further
ones. -/
def merged (d : Document) (item : PathItem) (o : Operation) (context : String) :
    Except ReferenceError (List Parameter) :=
  mergeFrom d context 0 [] (item.parameters ++ o.parameters)

end Parameter

/-- A field of a request that a parameter of the path or query fills. -/
structure RequestField where
  ident : String
  wire : String
  place : ParameterPlace
  required : Bool
  type : TypeExpr
  description : Option String

namespace RequestField

/-- Whether a parameter in a place always has a value; nothing for places that
requests are not read from. -/
def requiredIn (p : Parameter) : Option Bool :=
  match p.place with
  | .path => some true
  | .query => some p.required
  | _ => none

/-- The identifier of parameter number `i`. -/
def identOf (wire : String) (i : Nat) : String :=
  let name := Identifier.fieldName wire
  if name.isEmpty then "param" ++ toString i else name

/-- The type of a parameter: that of its schema if it can be read from one text,
else text itself. -/
def typeOf (c : Catalog) (owner : String) (p : Parameter) (shape : Shape) :
    StateM Hoist TypeExpr :=
  if c.isScalar shape then Hoist.render shape (owner ++ Identifier.exported p.name)
  else return .builtin "String"

end RequestField

-- ============================================================= answers

/-- An answer with a status code. -/
structure ResponseVariant where
  name : String
  status : Nat
  body : Option TypeExpr
  description : String

namespace ResponseVariant

/-- The status code that a response key stands for: the code itself, or the first
of a class such as `4XX`. -/
def statusOf? (key : String) : Option Nat :=
  match Numeric.readUnsigned 16 key with
  | .ok n => if 100 ≤ n && n ≤ 599 then some n.toNat else none
  | .error _ =>
    match key.toList with
    | [k, x, y] =>
      if '1' ≤ k && k ≤ '5' && x.toUpper == 'X' && y.toUpper == 'X' then
        some ((k.toNat - '0'.toNat) * 100)
      else none
    | _ => none

/-- A response key in upper case. -/
def upperKey (key : String) : String :=
  String.ofList (key.toList.map Char.toUpper)

end ResponseVariant

-- ============================================================== plans

/-- Why source cannot be generated from a document. -/
inductive PlanError where
  | reference (e : ReferenceError)
  /-- A schema has no finite shape. -/
  | endless
deriving DecidableEq, Repr

/-- The wording of a planning error. -/
def PlanError.message : PlanError → String
  | reference e => e.message
  | endless => "a schema has no finite shape"

/-- An operation with all that its source needs. -/
structure OperationPlan where
  verb : Verb
  path : String
  name : String
  summary : Option String
  description : Option String
  parameters : List RequestField
  /-- The type of the body, and whether there must be one. -/
  body : Option (TypeExpr × Bool)
  variants : List ResponseVariant

/-- A step of planning: it may fail, and hoists shapes. -/
abbrev Planning := StateT Hoist (Except PlanError)

namespace Planning

/-- Takes over the outcome of resolving a reference. -/
def resolved {α : Type} (context : String) (r : Except ResolveError α) : Planning α :=
  match r with
  | .ok a => return a
  | .error e => throw (.reference ⟨context, e⟩)

/-- What an entry holds, where a pointer has been followed. -/
def target {α : Type} (context : String) (resolve : String → Except ResolveError α) :
    Referable α → Planning α
  | .inline a => return a
  | .pointer p => resolved context (resolve p)

/-- The shape of a schema. -/
def shape (c : Catalog) (s : Schema) : Planning Shape :=
  match c.document.shape? s with
  | some shape => return shape
  | none => throw .endless

/-- A step that cannot fail. -/
def ofHoist {α : Type} (s : StateM Hoist α) : Planning α := fun h => .ok (s.run h)

/-- The shape of a body in one media type. -/
def mediaShape (c : Catalog) (m : MediaType) : Planning Shape :=
  match m.schema with
  | some s => shape c s
  | none => return .any

end Planning

namespace OperationPlan

open Planning

/-- The method of the handler that answers the operation. -/
def handlerMethod (p : OperationPlan) : String :=
  Identifier.fieldName p.name

/-- The verb and the path on one line. -/
def label (p : OperationPlan) : String :=
  "\x60" ++ p.verb.name ++ " " ++ Text.singleLine p.path ++ "\x60"

/-- Plans the request fields of parameters, numbered from `i` on. -/
def planParameters (c : Catalog) (name : String) :
    Nat → List Parameter → Planning (List RequestField)
  | _, [] => return []
  | i, p :: rest => do
    match RequestField.requiredIn p with
    | none => planParameters c name (i + 1) rest
    | some required =>
      let shape ← match p.schema with
        | some s => shape c s
        | none => pure .text
      let type ← ofHoist (RequestField.typeOf c name p shape)
      let field : RequestField :=
        ⟨RequestField.identOf p.name i, p.name, p.place, required, type, p.description⟩
      return field :: (← planParameters c name (i + 1) rest)

/-- Plans the body of an operation: only its JSON form counts. -/
def planBody (c : Catalog) (context name : String) :
    Option (Referable RequestBody) → Planning (Option (TypeExpr × Bool))
  | none => return none
  | some entry => do
    let body ← target (context ++ " request body") c.document.resolveRequestBody entry
    match body.content.json? with
    | none => return none
    | some m =>
      let shape ← mediaShape c m
      let type ← ofHoist (Hoist.render shape (name ++ "Body"))
      return some (type, body.required)

/-- Plans the variants of the answers; a key that stands for no status code has
none. -/
def planVariants (c : Catalog) (context name : String) :
    Table (Referable Response) → Planning (List ResponseVariant)
  | [] => return []
  | (key, entry) :: rest => do
    match ResponseVariant.statusOf? key with
    | none => planVariants c context name rest
    | some status =>
      let r ← target (context ++ " response " ++ key) c.document.resolveResponse entry
      let upper := ResponseVariant.upperKey key
      let body ← match r.content.json? with
        | none => pure none
        | some m =>
          if status = 204 then pure none
          else do
            let shape ← mediaShape c m
            some <$> ofHoist (Hoist.render shape (name ++ "Response" ++ upper))
      let variant : ResponseVariant := ⟨"Status" ++ upper, status, body, r.description⟩
      return variant :: (← planVariants c context name rest)

/-- Plans an operation. -/
def ofEndpoint (c : Catalog) (e : Document.Endpoint) : Planning OperationPlan := do
  let context := e.verb.name ++ " " ++ e.path
  let name := Identifier.operationName e.verb e.path e.operation.id
  let merged ← match Parameter.merged c.document e.item e.operation context with
    | .ok ps => pure ps
    | .error err => throw (.reference err)
  let parameters ← planParameters c name 0 merged
  let body ← planBody c context name e.operation.body
  let variants ← planVariants c context name e.operation.responses
  return { verb := e.verb, path := e.path, name, summary := e.operation.summary,
           description := e.operation.description, parameters, body, variants }

end OperationPlan

end ApiForge
