import ApiForge.Petstore.Service
import ApiForge.Proofs.Service.Mediation
/-!
Which route of the pet store a request takes, and what its answer is behind
the guard.

# The table of routes

The five routes differ in their methods or in the number of parts of their
paths, so that the method and the parts of a request say which one it takes;
the order in which they are registered does not matter (`find?_eq`).
-/

namespace ApiForge.Petstore

open ApiForge.Calendar (Timestamp)
open ApiForge.Http (Method Problem Request)
open ApiForge.Http.Path (segments normalize)
open ApiForge.Service (Call Handler Route RouteKey Router Segment)

-- ================================================ statement vocabulary

/-- The parts of the path of a request. -/
def parts (request : Request) : List String :=
  segments (normalize request.uri.path)

-- ================================================== the table of routes

variable {request : Request}

/-- A route takes a request when the verb is its own and the path fits. -/
theorem captures?_key (v : Verb) (pattern : String) :
    Router.captures? (key v pattern) request
      = if v.name = request.method.name then
          Segment.captures? (Segment.ofPattern pattern) (parts request)
        else none := by
  unfold Router.captures? parts
  congr 1
  obtain ⟨⟨m⟩, _, _, _⟩ := request
  simp [key, Method.ofVerb]

/-- One text captures nothing but itself. -/
theorem captures?_literal {t : String} {ps : List String} (h : ps ≠ [t]) :
    Segment.captures? [.literal t] ps = none := by
  rcases ps with _ | ⟨part, _ | ⟨part', ps⟩⟩
  · rfl
  · have hne : t ≠ part := fun heq => h (by rw [heq])
    simp [Segment.captures?, hne]
  · simp [Segment.captures?]

/-- A text and a name capture nothing but the text with one part behind it. -/
theorem captures?_literal_capture {t name : String} {ps : List String}
    (h : ∀ part, ps ≠ [t, part]) :
    Segment.captures? [.literal t, .capture name] ps = none := by
  rcases ps with _ | ⟨part, _ | ⟨part', _ | ⟨part'', ps⟩⟩⟩
  · rfl
  · simp [Segment.captures?]
  · have hne : t ≠ part := fun heq => h part' (by rw [heq])
    simp [Segment.captures?, hne]
  · simp [Segment.captures?]

/-- The route that a request takes, by its method and the parts of its path. -/
theorem find?_eq (now : Timestamp) (accounts : Option Accounts)
    (request : Request) :
    (service now accounts).find? request
      = match request.method.name, parts request with
        | "GET", ["health"] => some (⟨key .get "/health", health⟩, [])
        | "GET", ["pets"] => some (⟨key .get petsPath, listPets⟩, [])
        | "POST", ["pets"] => some (⟨key .post petsPath, createPet now⟩, [])
        | "GET", ["pets", part] => some (⟨key .get petPath, getPet⟩,
            [("petId", Text.Percent.decode false part)])
        | "DELETE", ["pets", part] => some (⟨key .delete petPath, deletePet⟩,
            [("petId", Text.Percent.decode false part)])
        | _, _ => none := by
  have hhealth : Segment.ofPattern "/health" = [.literal "health"] := by
    decide +kernel
  have hpets : Segment.ofPattern petsPath = [.literal "pets"] := by
    decide +kernel
  have hpet : Segment.ofPattern petPath
      = [.literal "pets", .capture "petId"] := by
    decide +kernel
  have hfind : (service now accounts).find? request
      = List.findSome? (fun route : Route Store =>
          (Router.captures? route.key request).map (route, ·)) (routes now) := rfl
  rw [hfind]
  simp only [routes, List.findSome?_cons, List.findSome?_nil, captures?_key,
    hhealth, hpets, hpet, Verb.name]
  generalize request.method.name = m
  generalize parts request = ps
  symm
  split
  · simp [Segment.captures?]
  · simp [Segment.captures?]
  · simp [Segment.captures?]
  · simp [Segment.captures?]
  · simp [Segment.captures?]
  · next hhealth hlist hcreate hfetch hdelete =>
      -- each of the five routes lacks the method or the parts
      have hone (w t : String) (h : m = w → ps = [t] → False) :
          (if w = m then Segment.captures? [.literal t] ps else none) = none := by
        split
        · next hm => exact captures?_literal (h hm.symm)
        · rfl
      have htwo (w : String) (h : ∀ part, m = w → ps = ["pets", part] → False) :
          (if w = m then
            Segment.captures? [.literal "pets", .capture "petId"] ps
          else none) = none := by
        split
        · next hm => exact captures?_literal_capture fun part => h part hm.symm
        · rfl
      rw [hone _ _ hhealth, hone _ _ hlist, hone _ _ hcreate, htwo _ hfetch,
        htwo _ hdelete]
      rfl

-- ============================================================ answers

variable {now : Timestamp} {accounts : Option Accounts} {s : Store}
  {route : Route Store} {captures : List (String × String)}

/-- A request that takes no route is told so, with or without a guard. -/
theorem answer_unrouted (h : (service now accounts).find? request = none) :
    (service now accounts).answer request s
      = ((Problem.notFound request.uri.path).response, s) := by
  rw [Router.answer, h]
  cases accounts <;> rfl

/-- An operation reads its arguments first, and asks the store next. -/
theorem operation_apply {α : Type} (needsStore : Bool)
    (arguments : Call → Except Service.ArgumentError α)
    (run : α → StateM Store Result) (c : Call) (s : Store) :
    operation needsStore arguments run c s
      = match arguments c with
        | .error e => (e.response, s)
        | .ok a =>
            if needsStore && s.failing then (Problem.internal.response, s)
            else ((run a s).1.response, (run a s).2) := by
  unfold operation
  cases arguments c with
  | error e => rfl
  | ok a =>
      simp only [bind, StateT.bind, get, getThe, MonadStateOf.get, StateT.get,
        pure]
      split <;> rfl

/-- The id of a call is the number that stands in its path. -/
theorem petId_eq {c : Call} {text : String}
    (hc : c.captures = [("petId", text)]) :
    petId c
      = match Numeric.readSigned 64 text with
        | .ok id => .ok id
        | .error e => .error (.invalid "petId" .path e.message) := by
  have htext : c.capture? "petId" = some text := by
    unfold Call.capture?
    rw [hc]
    rfl
  unfold petId Call.pathArgument Call.readArgument
  rw [htext]
  show Except.mapError _ (Except.mapError _ (Numeric.readSigned 64 text)) = _
  cases Numeric.readSigned 64 text <;> rfl

-- one equation for each handler, so that none is opened again

/-- What listing does to a store. -/
theorem listPets_apply (c : Call) (s : Store) :
    listPets c s
      = if s.failing then (Problem.internal.response, s)
        else
          (Result.response
            { status := 200,
              body := some (.arr ((s.list
                (c.queryArgument? (Service.Reader.signed 32) "limit")
                (c.queryArgument? Status.reader "status")).map Pet.value)) },
            s) := by
  rw [listPets, operation_apply, Bool.true_and]
  rfl

/-- What creating does to a store. -/
theorem createPet_apply (now : Timestamp) (c : Call) (s : Store) :
    createPet now c s
      = match c.jsonBody NewPet.read with
        | .error e => (e.response, s)
        | .ok new =>
            if s.failing then (Problem.internal.response, s)
            else
              (Result.response
                { status := 201, body := some (s.create now new).1.value },
                (s.create now new).2) := by
  rw [createPet, operation_apply]
  cases c.jsonBody NewPet.read with
  | error e => rfl
  | ok new => rfl

/-- What fetching does to a store. -/
theorem getPet_apply (c : Call) (s : Store) :
    getPet c s
      = match petId c with
        | .error e => (e.response, s)
        | .ok id =>
            if s.failing then (Problem.internal.response, s)
            else
              (Result.response <| match s.pets.get? id with
                | some pet => { status := 200, body := some pet.value }
                | none => { status := 404 }, s) := by
  rw [getPet, operation_apply]
  cases petId c with
  | error e => rfl
  | ok id =>
      simp only [Bool.true_and, bind, StateT.bind, get, getThe,
        MonadStateOf.get, StateT.get, pure]
      cases s.pets.get? id <;> rfl

/-- What deleting does to a store. -/
theorem deletePet_apply (c : Call) (s : Store) :
    deletePet c s
      = match petId c with
        | .error e => (e.response, s)
        | .ok id =>
            if s.failing then (Problem.internal.response, s)
            else
              (Result.response
                { status := if (s.pets.get? id).isSome then 204 else 404 },
                { s with pets := s.pets.erase id }) := by
  rw [deletePet, operation_apply]
  cases petId c with
  | error e => rfl
  | ok id =>
      simp only [Bool.true_and, Store.delete, bind, StateT.bind, modifyGet,
        MonadStateOf.modifyGet, StateT.modifyGet, pure]
      cases (s.pets.get? id).isSome <;> rfl

end ApiForge.Petstore
