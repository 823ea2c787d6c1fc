import ApiForge.Petstore.Accounts
import ApiForge.Petstore.Store
import ApiForge.Service.Router
/-!
The sample service: five operations on a store of pets behind a guard. Arguments
are read first, so a faulty request is answered before the store is asked; a
store out of order is answered with an internal problem. The time at which pets
are added is given from outside.
-/

namespace ApiForge.Petstore

open ApiForge.Auth (Scheme SchemeTable)
open ApiForge.Calendar (Timestamp)
open ApiForge.Http (Method Problem)
open ApiForge.Service (ArgumentError Call Handler Reader RequirementTable RouteKey Router)

-- ============================================================= answers

/-- A result of an operation: its status and, if it has one, its body. -/
structure Result where
  status : Nat
  body : Option Json.Value := none

/-- The answer that carries a result. -/
def Result.response (r : Result) : Http.Response :=
  Http.Response.ofJson r.status (r.body.map Json.Value.compact)

/-- Answers a call: reads its arguments, asks the store if it is in order, and
carries the operation out. -/
def operation {α : Type} (needsStore : Bool) (arguments : Call → Except ArgumentError α)
    (run : α → StateM Store Result) : Handler Store := fun c => do
  match arguments c with
  | .error e => return e.response
  | .ok a =>
    if needsStore && (← get).failing then return Problem.internal.response
    else return (← run a).response

-- ========================================================== operations

/-- Tells that the service is up. -/
def health : Handler Store :=
  operation false (fun _ => .ok ()) fun _ =>
    return { status := 200, body := some (.obj [("status", .str "ok")]) }

/-- Lists pets. -/
def listPets : Handler Store :=
  operation true
    (fun c => .ok (c.queryArgument? (Reader.signed 32) "limit",
      c.queryArgument? Status.reader "status"))
    fun (limit, status) => do
      return { status := 200, body := some (.arr (((← get).list limit status).map Pet.value)) }

/-- Adds a pet. -/
def createPet (now : Timestamp) : Handler Store :=
  operation true (fun c => c.jsonBody NewPet.read) fun new => do
    let pet ← modifyGet (Store.create now new)
    return { status := 201, body := some pet.value }

/-- The id in the path. -/
def petId (c : Call) : Except ArgumentError Int :=
  c.pathArgument (Reader.signed 64) "petId"

/-- Fetches a pet. -/
def getPet : Handler Store :=
  operation true petId fun id => do
    match (← get).pets.get? id with
    | some pet => return { status := 200, body := some pet.value }
    | none => return { status := 404 }

/-- Takes a pet away. -/
def deletePet : Handler Store :=
  operation true petId fun id => do
    if ← modifyGet (Store.delete id) then return { status := 204 } else return { status := 404 }

-- ============================================================= service

/-- The route of a verb on a pattern. -/
def key (v : Verb) (pattern : String) : RouteKey := ⟨Method.ofVerb v, pattern⟩

/-- The path of all pets. -/
def petsPath : String := "/pets"

/-- The path of one pet. -/
def petPath : String := "/pets/\x7bpetId\x7d"

/-- The schemes of the service. -/
def schemes : SchemeTable :=
  [(Accounts.keyScheme, .apiKey "X-API-Key" .header),
   (Accounts.tokenScheme, Scheme.ofWord "bearer")]

/-- A key, whatever its scopes. -/
def keyClause : Clause := [(Accounts.keyScheme, [])]

/-- A token that may change pets. -/
def writerClause : Clause := [(Accounts.tokenScheme, ["pets:write"])]

/-- What the routes ask for. -/
def requirements : RequirementTable :=
  [(key .get "/health", .anonymous),
   (key .get petsPath, .clauses [keyClause]),
   (key .post petsPath, .clauses [keyClause, writerClause]),
   (key .get petPath, .clauses [keyClause]),
   (key .delete petPath, .clauses [writerClause])]

/-- The routes of the service. -/
def routes (now : Timestamp) : List (Service.Route Store) :=
  [⟨key .get "/health", health⟩, ⟨key .get petsPath, listPets⟩,
   ⟨key .post petsPath, createPet now⟩, ⟨key .get petPath, getPet⟩,
   ⟨key .delete petPath, deletePet⟩]

/-- The service at a given time; without accounts it guards nothing. -/
def service (now : Timestamp) (accounts : Option Accounts) : Router Store :=
  { routes := routes now,
    layers := [Service.security schemes requirements (accounts.map Accounts.authenticator)] }

end ApiForge.Petstore
