import ApiForge.Http.Request
import ApiForge.Table
import ApiForge.Text.Base64
/-!
Credentials, and where the schemes of a service look for them in a request. The
look-up answers nothing when the place is empty or cannot be read, so an empty
key is as good as none.
-/

namespace ApiForge.Auth

open ApiForge.Http (Request)

/-- Where the key of a scheme stands. -/
inductive KeyPlace where
  | header
  | query
  | cookie
deriving DecidableEq, Repr, Inhabited

/-- How a service expects a credential. -/
inductive Scheme where
  | apiKey (name : String) (place : KeyPlace)
  /-- The Authorization header, with a scheme word of its own. -/
  | http (word : String)
  | oauth2
  | openIdConnect
  | mutualTls
deriving DecidableEq, Repr, Inhabited

/-- What a request shows. -/
inductive Credential where
  | basic (user password : String)
  | bearer (token : String)
  /-- A whole Authorization header. -/
  | authorization (value : String)
  | apiKey (key : String)
deriving DecidableEq, Repr, Inhabited

/-- The schemes of a service by name. -/
abbrev SchemeTable : Type := Table Scheme

namespace Scheme

/-- The scheme of a scheme word, which is kept in lower case. -/
def ofWord (word : String) : Scheme := .http (word.map Char.toLower)

/-- Whether two scheme words are the same but for the case of ASCII letters. -/
def sameWord (a b : String) : Bool := a.map Char.toLower == b.map Char.toLower

end Scheme

/-- A text that is not empty. -/
def nonEmpty (s : String) : Option String := if s.isEmpty then none else some s

/-- The text before the first occurrence of a character and the text after it. -/
def cutAt (c : Char) (s : String) : Option (String × String) :=
  match s.toList.dropWhile (· != c) with
  | _ :: rest => some (String.ofList (s.toList.takeWhile (· != c)), String.ofList rest)
  | [] => none

-- ================================================= Authorization header

/-- The first Authorization header without the blanks around it. -/
def authorization? (r : Request) : Option String :=
  ((r.headerText? "authorization").map Text.trim).bind nonEmpty

/-- What follows a scheme word in an Authorization header. -/
def afterWord? (word : String) (value : String) : Option String := do
  let (first, rest) ← cutAt ' ' value
  if Scheme.sameWord first word then nonEmpty (Text.trim rest) else none

/-- A user name and a password out of their written form. -/
def userAndPassword? (token : String) : Option (String × String) := do
  let chars ← Text.Utf8.decode? (← Text.Base64.decode? token.toList)
  let (user, password) ← cutAt ':' (String.ofList chars)
  if user.isEmpty then none else return (user, password)

/-- A user name and a password. -/
def basic? (r : Request) : Option Credential := do
  let (user, password) ← userAndPassword? (← afterWord? "basic" (← authorization? r))
  return .basic user password

/-- A bearer token. -/
def bearer? (r : Request) : Option Credential := do
  return .bearer (← afterWord? "bearer" (← authorization? r))

-- ================================================================ keys

/-- The cookies of a request in order. Items without an equals sign are passed
over, and so are headers that cannot be read. -/
def cookies (r : Request) : List (String × String) :=
  ((r.headersNamed "cookie").filterMap Http.Header.text?).flatMap fun text =>
    (Text.splitAtChar ';' text).filterMap fun item => cutAt '=' (Text.trim item)

/-- The key of a given name. -/
def key? (r : Request) (name : String) : KeyPlace → Option String
  | .header => r.headerText? name
  | .query => r.queryValue? name
  | .cookie => (cookies r).lookup name

/-- The credential that a request shows for a scheme. -/
def Scheme.credential? (s : Scheme) (r : Request) : Option Credential :=
  match s with
  | .http word =>
    if sameWord word "basic" then basic? r
    else if sameWord word "bearer" then bearer? r
    else (authorization? r).map .authorization
  | .oauth2 => bearer? r
  | .openIdConnect => bearer? r
  | .apiKey name place => ((key? r name place).bind nonEmpty).map .apiKey
  | .mutualTls => none

end ApiForge.Auth
