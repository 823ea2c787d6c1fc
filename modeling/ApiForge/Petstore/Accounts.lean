import ApiForge.Auth.Evaluate
/-!
The accounts of the sample service: a list of keys, and tokens with the scopes
that each grants.
-/

namespace ApiForge.Petstore

open ApiForge.Auth (AuthError Credential Principal)

/-- Who may use the service. -/
structure Accounts where
  keys : List String := []
  tokens : Table (List String) := []

namespace Accounts

/-- The name of the scheme of keys. -/
def keyScheme : String := "apiKey"

/-- The name of the scheme of tokens. -/
def tokenScheme : String := "bearerAuth"

/-- Decides about a key; the scopes do not matter. -/
def authenticateKey (a : Accounts) (c : Credential) : Except AuthError Principal :=
  match c with
  | .apiKey key =>
    if a.keys.contains key then
      .ok { subject := "api-key", attributes := [("key", key)] }
    else .error (.rejected "unknown api key")
  | _ => .error (.rejected "unknown api key")

/-- Decides about a token, which must grant every scope. -/
def authenticateToken (a : Accounts) (c : Credential) (scopes : List String) :
    Except AuthError Principal :=
  match c with
  | .bearer token =>
    match a.tokens.get? token with
    | none => .error (.rejected "unknown token")
    | some granted =>
      if scopes.all granted.contains then
        .ok { subject := "token:" ++ token,
              attributes := [("scopes", " ".intercalate granted)] }
      else .error (.rejected "insufficient scope")
  | _ => .error (.rejected "expected a bearer token")

/-- Decides about a credential. -/
def authenticate (a : Accounts) (scheme : String) (c : Credential) (scopes : List String) :
    Except AuthError Principal :=
  if scheme = keyScheme then a.authenticateKey c
  else if scheme = tokenScheme then a.authenticateToken c scopes
  else .error (.unknownScheme scheme)

/-- The accounts as an authenticator; they never change. -/
def authenticator {σ : Type} (a : Accounts) : Auth.Authenticator σ :=
  fun scheme c scopes => return a.authenticate scheme c scopes

end Accounts

end ApiForge.Petstore
