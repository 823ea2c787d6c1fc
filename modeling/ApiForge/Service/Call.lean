import ApiForge.Auth.Evaluate
import ApiForge.Http.Response
/-!
Calls: requests on their way through a service, with what the service has found
out about them. A handler answers a call; a layer wraps a handler in another.
-/

namespace ApiForge.Service

open ApiForge.Http (Method Request)

/-- A route as it was registered. -/
structure RouteKey where
  method : Method
  pattern : String
deriving DecidableEq, Repr, Inhabited

/-- A request with what is known about it. -/
structure Call where
  request : Request
  /-- The route that it takes. -/
  route : Option RouteKey := none
  /-- The names of the route's pattern with what stands in their place. -/
  captures : List (String × String) := []
  identity : Option Auth.Identity := none
deriving Inhabited

/-- Answers calls. -/
abbrev Handler (σ : Type) : Type := Call → StateM σ Http.Response

/-- Wraps a handler. -/
abbrev Layer (σ : Type) : Type := Handler σ → Handler σ

/-- What stands in the place of a name of the pattern. -/
def Call.capture? (c : Call) (name : String) : Option String :=
  c.captures.lookup name

end ApiForge.Service
