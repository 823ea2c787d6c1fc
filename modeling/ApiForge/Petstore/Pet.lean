import ApiForge.Calendar
import ApiForge.Document.Item
import ApiForge.Json.Printer
import ApiForge.Service.Argument
/-!
Pets as the sample service speaks of them: their JSON form, with absent fields
left out, and how it is read. A field that may be absent may also be null.
-/

namespace ApiForge.Petstore

open ApiForge.Calendar (Date Timestamp)

-- =============================================================== status

/-- Whether a pet can be had. -/
inductive Status where
  | available
  | pending
  | sold
deriving DecidableEq, Repr, Inhabited

namespace Status

/-- Every status. -/
def all : List Status := [available, pending, sold]

/-- The word for a status. -/
def name : Status → String
  | available => "available"
  | pending => "pending"
  | sold => "sold"

/-- The status of a word. -/
def ofName? (s : String) : Option Status := all.find? fun x => x.name == s

/-- Reads the word for a status. -/
def reader : Service.Reader Status := fun s =>
  match ofName? s with
  | some x => .ok x
  | none => .error ("unknown PetStatus value: " ++ s)

/-- Reads a status in a body. -/
def read (item : Item) : Read Status :=
  item.variant false (all.map fun x => (x.name, x))

theorem ofName?_name (x : Status) : ofName? x.name = some x := by
  cases x <;> decide

end Status

-- ================================================================= pets

/-- A pet in the store. -/
structure Pet where
  id : Int
  name : String
  status : Option Status := none
  tag : Option String := none
  born : Option Date := none
  updatedAt : Option Timestamp := none
deriving DecidableEq

/-- A pet that is to be added. -/
structure NewPet where
  name : String
  status : Option Status := none
  tag : Option String := none
deriving DecidableEq, Repr

/-- A member that is left out when it is absent. -/
def optionalMember {α : Type} (key : String) (text : α → String) (a : Option α) :
    List (String × Json.Value) :=
  (a.map fun a => (key, Json.Value.str (text a))).toList

/-- Reads a text of a given form. -/
def readForm {α : Type} (expected : String) (ofText? : String → Option α) (item : Item) :
    Read α := do
  match ofText? (← item.text) with
  | some a => return a
  | none => item.unexpected expected

namespace Pet

/-- The JSON form. -/
def value (p : Pet) : Json.Value :=
  .obj (optionalMember "born" Date.text p.born
    ++ [("id", .int p.id), ("name", .str p.name)]
    ++ optionalMember "status" Status.name p.status
    ++ optionalMember "tag" (fun t => t) p.tag
    ++ optionalMember "updatedAt" Timestamp.text p.updatedAt)

/-- Reads an id, a word of sixty-four bits with a sign. -/
def readId (item : Item) : Read Int := do
  match item with
  | .tree _ (.int n) =>
    if -(Nat.pow 2 63) ≤ n ∧ n < Nat.pow 2 63 then return n else item.unexpected "i64"
  | item => item.unexpected "i64"

/-- Reads a pet. -/
def read (item : Item) : Read Pet :=
  item.record ⟨"struct Pet", ["born", "id", "name", "status", "tag", "updatedAt"],
      ["id", "name"]⟩
    { id := 0, name := "" } fun p field item => do
      match field with
      | "born" => return { p with born := ← item.optional (readForm "a date" Date.ofText?) }
      | "id" => return { p with id := ← readId item }
      | "name" => return { p with name := ← item.text }
      | "status" => return { p with status := ← item.optional Status.read }
      | "tag" => return { p with tag := ← item.optional Item.text }
      | "updatedAt" =>
        return { p with updatedAt := ← item.optional (readForm "a moment" Timestamp.ofText?) }
      | _ => return p

end Pet

namespace NewPet

/-- The JSON form. -/
def value (p : NewPet) : Json.Value :=
  .obj ([("name", .str p.name)] ++ optionalMember "status" Status.name p.status
    ++ optionalMember "tag" (fun t => t) p.tag)

/-- Reads a pet that is to be added. -/
def read (item : Item) : Read NewPet :=
  item.record ⟨"struct NewPet", ["name", "status", "tag"], ["name"]⟩ { name := "" }
    fun p field item => do
      match field with
      | "name" => return { p with name := ← item.text }
      | "status" => return { p with status := ← item.optional Status.read }
      | "tag" => return { p with tag := ← item.optional Item.text }
      | _ => return p

end NewPet

end ApiForge.Petstore
