import ApiForge.Artifact.Requirement
import ApiForge.Auth.Credential
/-!
Whether the credentials of a request meet a requirement. Clauses are tried in
order and the first that is met counts; within a clause the schemes are tried in
name order, and the first failure gives the clause up. The authenticator decides
about single credentials; it may keep a state, so every call to it is made in the
order in which it is asked for, and none is made in vain.
-/

namespace ApiForge.Auth

open ApiForge.Http (Request)

/-- Whom a credential belongs to. -/
structure Principal where
  subject : String
  attributes : Table String := []
deriving DecidableEq, Repr, Inhabited

/-- Who sends a request: the principal, and the scheme and scopes that were asked
for when it was recognised. -/
structure Identity where
  principal : Principal
  scheme : String
  scopes : List String
deriving DecidableEq, Repr, Inhabited

/-- Why a scheme of a clause is not met. -/
inductive AuthError where
  | missingCredentials (scheme : String)
  | unknownScheme (scheme : String)
  | rejected (reason : String)
deriving DecidableEq, Repr

/-- The wording of an authentication error. -/
def AuthError.message : AuthError → String
  | missingCredentials scheme => "missing credentials for scheme '" ++ scheme ++ "'"
  | unknownScheme scheme => "unknown security scheme '" ++ scheme ++ "'"
  | rejected reason => "credentials rejected: " ++ reason

/-- Decides whether a credential for a scheme grants scopes. -/
abbrev Authenticator (σ : Type) : Type :=
  String → Credential → List String → StateM σ (Except AuthError Principal)

/-- What comes of a requirement. -/
inductive Outcome where
  | authenticated (who : Identity)
  | anonymous
  | unauthenticated
deriving DecidableEq, Repr, Inhabited

variable {σ : Type} (schemes : SchemeTable) (authenticator : Authenticator σ) (r : Request)

/-- Tries one scheme of a clause. -/
def tryScheme (name : String) (scopes : List String) :
    StateM σ (Except AuthError Identity) := do
  match schemes.get? name with
  | none => return .error (.unknownScheme name)
  | some scheme =>
    match scheme.credential? r with
    | none => return .error (.missingCredentials name)
    | some credential =>
      match ← authenticator name credential scopes with
      | .error e => return .error e
      | .ok principal => return .ok { principal, scheme := name, scopes }

/-- Tries the schemes of a clause. Answers the identity that the last of them
gives, `last` when there are none. -/
def satisfy (last : Option Identity) : Clause → StateM σ (Except AuthError (Option Identity))
  | [] => return .ok last
  | (name, scopes) :: rest => do
    match ← tryScheme schemes authenticator r name scopes with
    | .error e => return .error e
    | .ok who => satisfy (some who) rest

/-- Tries clauses in order. -/
def evaluateClauses : List Clause → StateM σ Outcome
  | [] => return .unauthenticated
  | clause :: rest => do
    match ← satisfy schemes authenticator r none clause with
    | .ok (some who) => return .authenticated who
    | .ok none => return .anonymous
    | .error _ => evaluateClauses rest

/-- What comes of a requirement on a request. -/
def evaluate : Requirement → StateM σ Outcome
  | .anonymous => return .anonymous
  | .clauses cs => evaluateClauses schemes authenticator r cs

end ApiForge.Auth
