/-!
Answers to requests: a status, a content type and a body.
-/

namespace ApiForge.Http

/-- The answer to a request. -/
structure Response where
  status : Nat
  contentType : Option String := none
  body : String := ""
deriving DecidableEq, Repr, Inhabited

namespace Response

/-- The status of an internal error, which also takes the place of a number that
is no status. -/
def internalStatus : Nat := 500

/-- A number as a status: three digits, the first of them no zero. -/
def statusOf (n : Nat) : Nat :=
  if 100 ≤ n ∧ n ≤ 999 then n else internalStatus

/-- An answer with a status and, if there is one, a JSON body. -/
def ofJson (status : Nat) (body : Option String) : Response :=
  match body with
  | some body =>
    { status := statusOf status, contentType := some "application/json", body }
  | none => { status := statusOf status }

end Response

end ApiForge.Http
