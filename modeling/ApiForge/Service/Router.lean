import ApiForge.Http.Path
import ApiForge.Http.Problem
import ApiForge.Service.Call
/-!
Routers. A route has a method and a pattern whose segments are texts or names in
braces. Of the routes that fit a request the one registered first is taken.
Layers stand around the handlers of all routes, the first added outermost, and
also see the requests that no route fits.

One layer asks for credentials. Each route has a requirement of its own, found by
its method and pattern; a route without one lets nobody through. A call that takes
no route passes, since there is nothing to guard.
-/

namespace ApiForge.Service

open ApiForge.Auth (Authenticator SchemeTable)
open ApiForge.Http (Method Request Problem Path.segments Path.normalize)

/-- A segment of a pattern. -/
inductive Segment where
  | literal (text : String)
  /-- Any segment, to be remembered under a name. -/
  | capture (name : String)
deriving DecidableEq, Repr, Inhabited

namespace Segment

/-- The segment that a text is: a name if braces stand around it. -/
def ofText (s : String) : Segment :=
  match s.toList with
  | '\x7b' :: rest =>
    match rest.getLast? with
    | some '\x7d' => .capture (String.ofList rest.dropLast)
    | _ => .literal s
  | _ => .literal s

/-- The segments of a pattern. -/
def ofPattern (pattern : String) : List Segment :=
  (Path.segments (Path.normalize pattern)).map ofText

/-- What names stand for when a row of segments fits a path; nothing if it does
not. -/
def captures? : List Segment → List String → Option (List (String × String))
  | [], [] => some []
  | .literal text :: rest, part :: parts =>
    if text = part then captures? rest parts else none
  | .capture name :: rest, part :: parts =>
    (captures? rest parts).map ((name, Text.Percent.decode false part) :: ·)
  | _, _ => none

end Segment

/-- A route with its handler. -/
structure Route (σ : Type) where
  key : RouteKey
  handler : Handler σ

/-- A service: its routes in the order of registration and its layers from the
outermost. -/
structure Router (σ : Type) where
  routes : List (Route σ) := []
  layers : List (Layer σ) := []

namespace Router

variable {σ : Type}

/-- The router with one more route. -/
def route (r : Router σ) (method : Method) (pattern : String) (handler : Handler σ) :
    Router σ :=
  { r with routes := r.routes ++ [⟨⟨method, pattern⟩, handler⟩] }

/-- The router with one more layer, inside those it has. -/
def layer (r : Router σ) (l : Layer σ) : Router σ :=
  { r with layers := r.layers ++ [l] }

/-- What the names of a route stand for when it fits a request. -/
def captures? (key : RouteKey) (request : Request) : Option (List (String × String)) :=
  if key.method = request.method then
    Segment.captures? (Segment.ofPattern key.pattern) (Path.segments (Path.normalize request.uri.path))
  else none

/-- The route that a request takes, with what its names stand for. -/
def find? (r : Router σ) (request : Request) : Option (Route σ × List (String × String)) :=
  r.routes.findSome? fun route => (captures? route.key request).map (route, ·)

/-- Answers a call that takes no route. -/
def notFound : Handler σ := fun c =>
  return (Problem.notFound c.request.uri.path).response

/-- A handler inside layers, the first outermost. -/
def wrap (layers : List (Layer σ)) (handler : Handler σ) : Handler σ :=
  layers.foldr (fun l inner => l inner) handler

/-- Answers a request. -/
def answer (r : Router σ) (request : Request) : StateM σ Http.Response :=
  match r.find? request with
  | some (route, captures) =>
    wrap r.layers route.handler { request, route := some route.key, captures }
  | none => wrap r.layers notFound { request }

end Router

-- =============================================================== guard

/-- What routes ask for; of two entries for one route the first counts. -/
abbrev RequirementTable : Type := List (RouteKey × Requirement)

namespace RequirementTable

/-- Enters a requirement, in place of an older one. -/
def insert (key : RouteKey) (q : Requirement) (t : RequirementTable) : RequirementTable :=
  (key, q) :: t

/-- What a route asks for. -/
def get (t : RequirementTable) (key : RouteKey) : Requirement :=
  (t.lookup key).getD (.clauses [])

end RequirementTable

/-- Lets a call through if its credentials are enough. -/
def guardWith (schemes : SchemeTable) (requirements : RequirementTable)
    (authenticator : Authenticator σ) : Layer σ := fun inner c => do
  match c.route with
  | none => inner c
  | some key =>
    match ← Auth.evaluate schemes authenticator c.request (requirements.get key) with
    | .authenticated who => inner { c with identity := some who }
    | .anonymous => inner c
    | .unauthenticated =>
      return { Problem.unauthorized with subject := some c.request.uri.path }.response

/-- The layer that asks for credentials; without an authenticator it asks for
none. -/
def security (schemes : SchemeTable) (requirements : RequirementTable)
    (authenticator : Option (Authenticator σ)) : Layer σ :=
  match authenticator with
  | some a => guardWith schemes requirements a
  | none => id

end ApiForge.Service
