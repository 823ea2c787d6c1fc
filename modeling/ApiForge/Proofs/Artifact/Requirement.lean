import ApiForge.Artifact.Security
import ApiForge.Proofs.Source.Form
/-!
What the source says that an operation requires.

A requirement stands in the source as an expression of nested lists: the
clauses, in each the names of schemes, and for each scheme its scopes. The
expression is read back (`requirement`), so the source says one requirement and
no other. `Requires` says which one that is, from the lists of the operation
and of the document.
-/

namespace ApiForge

namespace SecurityModule

open Source (Form skip skip_append skip_of_ne)
open Source.Form (quoted enclosed pair list)
open Definition (literal)

-- ============================================================= expressions

/-- A literal begins with a sign that ends no list. -/
theorem head?_quoted (s : String) :
    ∃ c, (quoted.print s).toList.head? = some c ∧ c ≠ ']' := by
  refine ⟨'"', ?_, by decide⟩
  show (String.ofList (Text.Quoted.encodeChars s.toList)).toList.head? = _
  rw [String.toList_ofList]
  rfl

/-- The scopes that a scheme must grant. -/
def scopes : Form (List String) :=
  list quoted head?_quoted

/-- A scheme with its scopes. -/
def entry : Form (String × List String) :=
  enclosed "(" (pair quoted ", " scopes) ")"

theorem head?_entry (e : String × List String) :
    ∃ c, (entry.print e).toList.head? = some c ∧ c ≠ ']' :=
  ⟨'(', Form.head?_enclosed (by decide) .., by decide⟩

/-- The schemes of a clause. -/
def clause : Form Clause :=
  enclosed "oasgen_runtime::security::clause(" (list entry head?_entry) ")"

theorem head?_clause (c : Clause) :
    ∃ x, (clause.print c).toList.head? = some x ∧ x ≠ ']' :=
  ⟨'o', Form.head?_enclosed (by decide) .., by decide⟩

/-- The clauses of which one must be met. -/
def clauses : Form (List Clause) :=
  enclosed "Clauses(" (list clause head?_clause) ")"

/-- How requirements begin. -/
def requirementHome : String := "oasgen_runtime::security::Requirement::"

/-- A list whose brackets stand in the texts around it. -/
theorem enclosed_list {before opening after closing : String}
    (hopening : before ++ "vec![" = opening) (hclosing : "]" ++ after = closing)
    (members : String) :
    before ++ ("vec![" ++ members ++ "]") ++ after
      = opening ++ members ++ closing := by
  subst hopening hclosing
  simp only [String.append_assoc]

/-- An entry is written as the name of a scheme with its scopes. -/
theorem print_entry (e : String × List String) :
    entry.print e = "(" ++ literal e.1 ++ ", vec!["
      ++ ", ".intercalate (e.2.map literal) ++ "])" := by
  have hlist (scopes : String) :
      ", " ++ ("vec![" ++ scopes ++ "]") ++ ")" = ", vec![" ++ scopes ++ "])" :=
    enclosed_list (by decide +kernel) (by decide +kernel) scopes
  -- the bracket that opens the scopes is written with the comma before it
  calc entry.print e
      = "(" ++ (literal e.1 ++ ", " ++ ("vec!["
          ++ ", ".intercalate (e.2.map literal) ++ "]")) ++ ")" := rfl
    _ = "(" ++ literal e.1 ++ (", " ++ ("vec!["
          ++ ", ".intercalate (e.2.map literal) ++ "]") ++ ")") := by
        simp only [String.append_assoc]
    _ = _ := by
        rw [hlist]
        simp only [String.append_assoc]

/-- A clause is printed as the generator writes it. -/
theorem print_clause (c : Clause) : clause.print c = clauseExpr c := by
  have hentries : entry.print = fun e => "(" ++ literal e.1 ++ ", vec!["
      ++ ", ".intercalate (e.2.map literal) ++ "])" := funext print_entry
  rw [clause, Form.print_enclosed, Form.print_list, hentries]
  exact enclosed_list (by decide +kernel) (by decide +kernel) _

theorem print_clauses (cs : List Clause) :
    requirementHome ++ clauses.print cs = requirementExpr (.clauses cs) := by
  rw [clauses, Form.print_enclosed, Form.print_list, funext print_clause,
    ← String.append_assoc, ← String.append_assoc]
  exact enclosed_list (by decide +kernel) (by decide +kernel) _

theorem print_anonymous :
    requirementHome ++ "Anonymous" = requirementExpr .anonymous := by
  decide +kernel

/-- The requirement of an operation. -/
def requirement : Form Requirement where
  print := requirementExpr
  read cs := do
    let cs ← skip requirementHome cs
    match skip "Anonymous" cs with
    | some rest => return (.anonymous, rest)
    | none => (clauses.read cs).map fun (cs, rest) => (.clauses cs, rest)
  read_print r rest := by
    cases r with
    | anonymous =>
        rw [← print_anonymous, String.toList_append, List.append_assoc,
          skip_append, Option.bind_eq_bind, Option.bind_some, skip_append]
        rfl
    | clauses cs =>
        have hother : skip "Anonymous" ((clauses.print cs).toList ++ rest)
            = none := by
          have hhead : (clauses.print cs).toList.head? = some 'C' :=
            Form.head?_enclosed (by decide) ..
          refine skip_of_ne (c := 'A') (d := 'C') (by decide) ?_ (by decide)
          rw [List.head?_append, hhead]
          rfl
        rw [← print_clauses, String.toList_append, List.append_assoc,
          skip_append, Option.bind_eq_bind, Option.bind_some, hother]
        dsimp only
        rw [clauses.read_print]
        rfl

end SecurityModule

-- ============================================================= inheritance

/-- What is required when an operation gives the list `own` and the document
gives the list `shared`: nothing can be enough when neither is given, the list
of the operation takes the place of the document's, and one that is empty asks
for nothing. The schemes of a clause stand in the order of their names. -/
def Requires (own shared : Option (List Clause)) (r : Requirement) : Prop :=
  match own.or shared with
  | none => r = .clauses []
  | some [] => r = .anonymous
  | some cs => r = .clauses cs ∧ ∀ c ∈ cs, Table.Sorted c

/-- An operation requires what is stored for it, if the schemes of a clause stand in
order. -/
theorem Document.requires_requirementOf {d : Document} {o : Operation}
    (h : ∀ cs, o.security.or d.security = some cs → ∀ c ∈ cs, Table.Sorted c) :
    Requires o.security d.security (d.requirementOf o) := by
  rw [Document.requirementOf, Requires, EffectiveSecurity.ofLists]
  cases hlist : o.security.or d.security with
  | none => rfl
  | some cs =>
      cases cs with
      | nil => rfl
      | cons c cs => exact ⟨rfl, h _ hlist⟩

end ApiForge
