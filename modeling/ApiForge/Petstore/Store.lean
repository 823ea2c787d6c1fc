import ApiForge.Petstore.Pet
/-!
The store of the sample service: pets by id in ascending order, and a counter
that numbers them from one. To create a pet takes two steps, numbering and
placing; other steps may come in between when several callers use one store.
-/

namespace ApiForge.Petstore

open ApiForge.Calendar (Timestamp)

/-- Pets by id. -/
abbrev Shelf : Type := List (Int × Pet)

namespace Shelf

/-- Puts a pet under an id, in place of the one there. -/
def insert (id : Int) (p : Pet) : Shelf → Shelf
  | [] => [(id, p)]
  | (j, q) :: rest =>
    if id < j then (id, p) :: (j, q) :: rest
    else if id = j then (id, p) :: rest
    else (j, q) :: insert id p rest

/-- The pet under an id. -/
def get? (s : Shelf) (id : Int) : Option Pet := s.lookup id

/-- Takes the pet under an id away. -/
def erase (s : Shelf) (id : Int) : Shelf := s.filter fun e => e.1 != id

end Shelf

/-- Pets, and how many have been numbered. -/
structure Store where
  pets : Shelf := []
  counter : Int := 0
  /-- A store out of order: whoever asks about pets is turned away. -/
  failing : Bool := false

namespace Store

-- ================================================================ steps

/-- Takes the next id. -/
def allocate (s : Store) : Int × Store :=
  (s.counter + 1, { s with counter := s.counter + 1 })

/-- Puts a pet under an id. -/
def place (id : Int) (p : Pet) (s : Store) : Store :=
  { s with pets := s.pets.insert id p }

-- =========================================================== operations

/-- Adds a pet that has no more than a name and a status. -/
def insert (name : String) (status : Status) (s : Store) : Int × Store :=
  let (id, s) := s.allocate
  (id, s.place id { id, name, status := some status })

/-- The pet that a new pet becomes. -/
def enrol (now : Timestamp) (id : Int) (p : NewPet) : Pet :=
  { id, name := p.name, status := some (p.status.getD .available), tag := p.tag,
    updatedAt := some now }

/-- Adds a pet. -/
def create (now : Timestamp) (p : NewPet) (s : Store) : Pet × Store :=
  let (id, s) := s.allocate
  (enrol now id p, s.place id (enrol now id p))

/-- The first pets of a status, in ascending order of their ids. A negative limit
is as good as zero. -/
def list (s : Store) (limit : Option Int) (status : Option Status) : List Pet :=
  let pets := (s.pets.map (·.2)).filter fun p => status.isNone || p.status == status
  match limit with
  | some n => pets.take n.toNat
  | none => pets

/-- Takes a pet away; answers whether there was one. -/
def delete (id : Int) (s : Store) : Bool × Store :=
  ((s.pets.get? id).isSome, { s with pets := s.pets.erase id })

end Store

end ApiForge.Petstore
