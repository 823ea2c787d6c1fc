import ApiForge.Document.Basic
/-!
What an operation asks of the credentials of a request. The list of an operation
takes the place of the document's, even when it is empty: an empty list asks for
nothing, and where no list is given at all nothing can be enough.
-/

namespace ApiForge

/-- What a request must show. -/
inductive Requirement where
  | anonymous
  /-- One of several clauses must be met; of none, none can. -/
  | clauses (cs : List Clause)
deriving Inhabited

/-- Which list of clauses counts for an operation. -/
inductive EffectiveSecurity where
  /-- Neither the operation nor the document gives a list. -/
  | unspecified
  /-- The list is empty. -/
  | anonymous
  | clauses (cs : List Clause)

namespace EffectiveSecurity

/-- The list that counts, from the operation's and the document's. -/
def ofLists (operation document : Option (List Clause)) : EffectiveSecurity :=
  match operation.or document with
  | none => unspecified
  | some [] => anonymous
  | some cs => clauses cs

/-- What the list asks of a request. -/
def requirement : EffectiveSecurity → Requirement
  | unspecified => .clauses []
  | anonymous => .anonymous
  | clauses cs => .clauses cs

end EffectiveSecurity

/-- What an operation of a document asks of a request. -/
def Document.requirementOf (d : Document) (o : Operation) : Requirement :=
  (EffectiveSecurity.ofLists o.security d.security).requirement

end ApiForge
