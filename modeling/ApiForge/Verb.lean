/-!
The eight request verbs that a path item can declare, in the order in which
the operations of one path are listed everywhere.
-/

namespace ApiForge

/-- A request verb. -/
inductive Verb where
  | get
  | post
  | put
  | patch
  | delete
  | options
  | head
  | trace
deriving DecidableEq, Repr, Inhabited

namespace Verb

/-- Every verb, in listing order. -/
def all : List Verb := [get, post, put, patch, delete, options, head, trace]

theorem mem_all (v : Verb) : v ∈ all := by cases v <;> decide

/-- The verb as it stands in a request line. -/
def name : Verb → String
  | get => "GET"
  | post => "POST"
  | put => "PUT"
  | patch => "PATCH"
  | delete => "DELETE"
  | options => "OPTIONS"
  | head => "HEAD"
  | trace => "TRACE"

/-- The verb as the key of an operation in a path item. -/
def key : Verb → String
  | get => "get"
  | post => "post"
  | put => "put"
  | patch => "patch"
  | delete => "delete"
  | options => "options"
  | head => "head"
  | trace => "trace"

/-- The verb with a given request-line name. -/
def ofName? (s : String) : Option Verb :=
  all.find? fun v => v.name == s

end Verb

end ApiForge
