import ApiForge.Proofs.Http.Path
import ApiForge.Service.Router
/-!
Requests are told apart by the parts of their paths.

A router reads patterns and paths through their normal form, so the slashes in a
path count for nothing but where they separate parts. Two requests with one method
and the same parts take the same route, and what the names of its pattern stand for
is the same as well (`same_parts_same_route`).
-/

namespace ApiForge.Service

open ApiForge.Http (Request Path.IsNormal Path.segments Path.normalize
  Path.head?_normalize Path.isNormal_normalize Path.normalize_normalize
  Path.segments_normalize)

variable {σ : Type} {r : Router σ} {a b : Request}

-- ================================================ statement vocabulary

namespace Router

/-- A request takes a route: it is found with what the names of its pattern stand
for, and its handler answers the call behind the layers. -/
structure Takes (r : Router σ) (request : Request) (route : Route σ)
    (captures : List (String × String)) : Prop where
  found : r.find? request = some (route, captures)
  answered : r.answer request = wrap r.layers route.handler
    { request, route := some route.key, captures }

/-- A request takes no route: the layers stand around the answer that says so. -/
structure TakesNone (r : Router σ) (request : Request) : Prop where
  found : r.find? request = none
  answered : r.answer request = wrap r.layers notFound { request }

/-- Two requests are dispatched alike: to one route with the same captures, or both
to none. -/
def Alike (r : Router σ) (a b : Request) : Prop :=
  (∃ route ∈ r.routes, ∃ captures,
      r.Takes a route captures ∧ r.Takes b route captures)
    ∨ (r.TakesNone a ∧ r.TakesNone b)

end Router

-- ============================================================== dispatch

/-- What the names of a route stand for depends on the parts of the path only. -/
theorem captures?_congr (key : RouteKey) (hmethod : a.method = b.method)
    (hparts : Path.segments a.uri.path = Path.segments b.uri.path) :
    Router.captures? key a = Router.captures? key b := by
  unfold Router.captures?
  rw [hmethod, Path.segments_normalize, Path.segments_normalize, hparts]

/-- Requests with the same method and the same segments are routed alike. -/
theorem find?_congr (r : Router σ) (hmethod : a.method = b.method)
    (hparts : Path.segments a.uri.path = Path.segments b.uri.path) :
    r.find? a = r.find? b := by
  unfold Router.find?
  simp only [captures?_congr _ hmethod hparts]

/-- A route that is found is one of the router's, and the request takes it. -/
theorem takes_of_find? {route : Route σ} {captures : List (String × String)}
    (h : r.find? a = some (route, captures)) :
    route ∈ r.routes ∧ r.Takes a route captures := by
  constructor
  · obtain ⟨other, hmem, hother⟩ := List.exists_of_findSome?_eq_some h
    obtain ⟨_, _, heq⟩ := Option.map_eq_some_iff.1 hother
    cases heq
    exact hmem
  · refine ⟨h, ?_⟩
    unfold Router.answer
    rw [h]

theorem takesNone_of_find? (h : r.find? a = none) : r.TakesNone a := by
  refine ⟨h, ?_⟩
  unfold Router.answer
  rw [h]

/-- Requests that find the same are dispatched alike. -/
theorem alike_of_find?_eq (h : r.find? a = r.find? b) : r.Alike a b := by
  cases ha : r.find? a with
  | none =>
      rw [ha] at h
      exact .inr ⟨takesNone_of_find? ha, takesNone_of_find? h.symm⟩
  | some found =>
      obtain ⟨route, captures⟩ := found
      rw [ha] at h
      obtain ⟨hmem, htakes⟩ := takes_of_find? ha
      exact .inl ⟨route, hmem, captures, htakes, (takes_of_find? h.symm).2⟩

-- ========================================================= main result

/-- Every path has a normal form: it is not empty, no two slashes stand side by side
in it, and it ends with a slash only when it is the root. It begins with a slash just
when the path does or is empty, it has the same parts, and it is its own normal form.
So requests with one method and the same parts are dispatched alike by every
router. -/
theorem same_parts_same_route :
    (∀ path : String,
        Path.IsNormal (Path.normalize path).toList
          ∧ ((Path.normalize path).toList.head? = some '/'
              ↔ path = "" ∨ path.toList.head? = some '/')
          ∧ Path.segments (Path.normalize path) = Path.segments path
          ∧ Path.normalize (Path.normalize path) = Path.normalize path)
      ∧ ∀ (σ : Type) (r : Router σ) (a b : Request), a.method = b.method →
          Path.segments a.uri.path = Path.segments b.uri.path →
          r.Alike a b := by
  constructor
  · intro path
    exact ⟨Path.isNormal_normalize path, Path.head?_normalize path,
      Path.segments_normalize path, Path.normalize_normalize path⟩
  · intro σ r a b hmethod hparts
    exact alike_of_find?_eq (find?_congr r hmethod hparts)

-- two requests for the same toys

/-- The route of the toys of a pet. -/
def toysRoute : Route Unit :=
  ⟨⟨⟨"GET"⟩, "/pets/{petId}/toys"⟩, fun _ => pure { status := 200 }⟩

/-- A request to a path. -/
def getAt (path : String) : Request where
  method := ⟨"GET"⟩
  uri := ⟨path, none⟩

/-- Slashes in front, between the parts and behind them lead to the same route, and
the pet is the same. -/
theorem same_parts_same_route_toys :
    Path.segments "//pets///7%20b/toys/" = Path.segments "/pets/7%20b/toys"
      ∧ Router.Takes ⟨[toysRoute], []⟩ (getAt "/pets/7%20b/toys")
        toysRoute [("petId", "7 b")]
      ∧ Router.Takes ⟨[toysRoute], []⟩ (getAt "//pets///7%20b/toys/")
        toysRoute [("petId", "7 b")] := by
  have hparts : Path.segments "//pets///7%20b/toys/"
      = Path.segments "/pets/7%20b/toys" := by
    decide +kernel
  have hcaptures : Router.captures? toysRoute.key (getAt "/pets/7%20b/toys")
      = some [("petId", "7 b")] := by
    decide +kernel
  have hfound : Router.find? ⟨[toysRoute], []⟩ (getAt "/pets/7%20b/toys")
      = some (toysRoute, [("petId", "7 b")]) := by
    unfold Router.find?
    rw [List.findSome?_cons, hcaptures]
    rfl
  refine ⟨hparts, ?_⟩
  -- both requests take the route, or neither does; the short one does
  rcases same_parts_same_route.2 _ ⟨[toysRoute], []⟩
      (getAt "//pets///7%20b/toys/") (getAt "/pets/7%20b/toys") rfl hparts with
    ⟨route, -, captures, hmany, hone⟩ | ⟨-, hnone⟩
  · cases hone.found.symm.trans hfound
    exact ⟨hone, hmany⟩
  · cases hnone.found.symm.trans hfound

end ApiForge.Service
