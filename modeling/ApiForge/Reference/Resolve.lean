import ApiForge.Reference.Pointer
/-!
What pointers lead to. A response, parameter or request body may itself be a
pointer, which is followed; references inside schemas are not. Along a chain the
entry at the end must have the kind of every pointer before it. A resolver
remembers which pointers have been resolved, by their text: it answers as
`resolve` does and knows how many it has met.
-/

namespace ApiForge

/-- A shared entry that is not itself a pointer. -/
inductive Component where
  | schema (s : Schema)
  | response (r : Response)
  | parameter (p : Parameter)
  | requestBody (b : RequestBody)

/-- The kind of a component. -/
def Component.kind : Component → EntryKind
  | schema _ => .schema
  | response _ => .response
  | parameter _ => .parameter
  | requestBody _ => .requestBody

/-- A component with the place where it stands, which tells it from all others. -/
structure Found where
  address : Address
  component : Component

/-- What stands at an address. -/
inductive Slot where
  | component (c : Component)
  | pointer (target : String)

namespace Components

/-- The slot of an entry that may be a pointer. -/
def slotOf {α : Type} (wrap : α → Component) : Referable α → Slot
  | .pointer target => .pointer target
  | .inline a => .component (wrap a)

/-- What stands at an address. -/
def slot? (c : Components) (a : Address) : Option Slot :=
  match a.kind with
  | .schema => (c.schemas.get? a.name).map fun s => .component (.schema s)
  | .response => (c.responses.get? a.name).map (slotOf .response)
  | .parameter => (c.parameters.get? a.name).map (slotOf .parameter)
  | .requestBody => (c.requestBodies.get? a.name).map (slotOf .requestBody)

/-- The target of an entry that is a pointer. -/
def targetOf? {α : Type} : Referable α → Option String
  | .pointer target => some target
  | .inline _ => none

/-- The targets of all entries that are pointers. -/
def targets (c : Components) : List String :=
  c.responses.filterMap (fun e => targetOf? e.2)
    ++ c.parameters.filterMap (fun e => targetOf? e.2)
    ++ c.requestBodies.filterMap (fun e => targetOf? e.2)

end Components

namespace Document

/-- The address that a pointer names, and what stands there. -/
def lookUp (d : Document) (pointer : String) : Except ResolveError (Address × Slot) := do
  let a ← Pointer.parse pointer
  match d.shared.slot? a with
  | some slot => return (a, slot)
  | none => throw (.missing pointer)

/-- The pointers that a chain may still pass through after it has begun with
`pointer`. -/
def unvisitedAfter (d : Document) (pointer : String) : List String :=
  d.shared.targets.eraseDups.erase pointer

/-- Demands that a component has the kind of the pointer that led to it. -/
def demand (expected : EntryKind) (pointer : String) (f : Found) :
    Except ResolveError Found :=
  if f.component.kind = expected then .ok f else .error (.kindMismatch pointer expected)

/-- Follows a pointer. Every entry that is a pointer names its target once in
`unvisited`; a target that is no longer there has been passed before. -/
def follow (d : Document) (unvisited : List String) (pointer : String) :
    Except ResolveError Found :=
  match d.lookUp pointer with
  | .error e => .error e
  | .ok (a, .component c) => .ok ⟨a, c⟩
  | .ok (a, .pointer target) =>
    if _h : target ∈ unvisited then
      match follow d (unvisited.erase target) target with
      | .error e => .error e
      | .ok f => demand a.kind target f
    else .error (.cycle target)
termination_by unvisited.length
decreasing_by
  have := List.length_erase_of_mem _h
  have := List.length_pos_of_mem _h
  omega

/-- What a pointer leads to. -/
def resolve (d : Document) (pointer : String) : Except ResolveError Found :=
  d.follow (d.unvisitedAfter pointer) pointer

/-- What a pointer leads to, which must be of a given kind. -/
def resolveAs (d : Document) (expected : EntryKind) (pointer : String) :
    Except ResolveError Found := do
  demand expected pointer (← d.resolve pointer)

/-- The schema that a pointer leads to. -/
def resolveSchema (d : Document) (pointer : String) : Except ResolveError Schema := do
  match (← d.resolve pointer).component with
  | .schema s => return s
  | _ => throw (.kindMismatch pointer .schema)

/-- The parameter that a pointer leads to. -/
def resolveParameter (d : Document) (pointer : String) : Except ResolveError Parameter := do
  match (← d.resolve pointer).component with
  | .parameter p => return p
  | _ => throw (.kindMismatch pointer .parameter)

/-- The response that a pointer leads to. -/
def resolveResponse (d : Document) (pointer : String) : Except ResolveError Response := do
  match (← d.resolve pointer).component with
  | .response r => return r
  | _ => throw (.kindMismatch pointer .response)

/-- The request body that a pointer leads to. -/
def resolveRequestBody (d : Document) (pointer : String) :
    Except ResolveError RequestBody := do
  match (← d.resolve pointer).component with
  | .requestBody b => return b
  | _ => throw (.kindMismatch pointer .requestBody)

end Document

-- =========================================================== resolvers

/-- The pointers that have been resolved, latest first, with what they lead to. -/
abbrev Resolver := List (String × Found)

/-- A step that resolves pointers: it may fail, and keeps what it has learnt even
then. -/
abbrev Resolving (α : Type) := StateM Resolver (Except ResolveError α)

namespace Resolver

/-- Follows a pointer unless it has been resolved before, and remembers it. -/
def follow (d : Document) (unvisited : List String) (pointer : String) : Resolving Found :=
  fun known =>
  match known.lookup pointer with
  | some f => (.ok f, known)
  | none =>
    match d.lookUp pointer with
    | .error e => (.error e, known)
    | .ok (a, .component c) => (.ok ⟨a, c⟩, (pointer, ⟨a, c⟩) :: known)
    | .ok (a, .pointer target) =>
      if _h : target ∈ unvisited then
        match follow d (unvisited.erase target) target known with
        | (.error e, known) => (.error e, known)
        | (.ok f, known) =>
          match Document.demand a.kind target f with
          | .error e => (.error e, known)
          | .ok f => (.ok f, (pointer, f) :: known)
      else (.error (.cycle target), known)
termination_by unvisited.length
decreasing_by
  have := List.length_erase_of_mem _h
  have := List.length_pos_of_mem _h
  omega

/-- What a pointer leads to. -/
def resolve (d : Document) (pointer : String) : Resolving Found :=
  follow d (d.unvisitedAfter pointer) pointer

/-- What a pointer leads to, which must be of a given kind. -/
def resolveAs (d : Document) (expected : EntryKind) (pointer : String) : Resolving Found :=
  fun known =>
  match resolve d pointer known with
  | (.error e, known) => (.error e, known)
  | (.ok f, known) => (Document.demand expected pointer f, known)

/-- How many pointers have been resolved. -/
def size (known : Resolver) : Nat := known.length

end Resolver

end ApiForge
