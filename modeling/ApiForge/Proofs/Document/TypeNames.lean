import ApiForge.Proofs.Document.Canonical
/-!
Type names in canonical form.

Which names a canonical schema has is said apart from how they are found
(`CanonicalNames`): the names other than null in the order in which they first
stand, and then null, once, if a name or the flag admits it. This is one list for
all names and every flag, and it is the one that a schema gets
(`canonicalTypes_exact`).

A node of the older convention admits null by its flag, and one of the newer
convention by a name, which may stand anywhere (`WithNull`). A name that is
written again behind changes nothing, and null is put last in any case, so both
come to one list.
-/

namespace ApiForge.Schema

open Distinct (FirstOccurrences)

-- ================================================ statement vocabulary

/-- The canonical spelling of type names beside a flag. -/
def CanonicalNames (types : List String) (nullable : Option Bool)
    (names : List String) : Prop :=
  ∃ others, FirstOccurrences (types.filter (· != nullName)) others
    ∧ names = others
      ++ if nullName ∈ types ∨ nullable = some true then [nullName] else []

/-- Type names with null among them, at any place and any number of times; and a
name may be repeated behind itself. -/
inductive WithNull (types : List String) : List String → Prop
  | once (front back : List String) :
      front ++ back = types → WithNull types (front ++ nullName :: back)
  | again (front back : List String) {name : String} :
      WithNull types (front ++ back) → name = nullName ∨ name ∈ front →
      WithNull types (front ++ name :: back)

-- ============================================================= spelling

variable {types written : List String} {nullable : Option Bool}

/-- There is one canonical spelling. -/
theorem canonicalNames_iff {names : List String} :
    CanonicalNames types nullable names ↔ canonicalTypes types nullable = names := by
  rw [canonicalTypes_eq]
  constructor
  · rintro ⟨others, hothers, rfl⟩
    rw [hothers.eq_eraseDups]
  · intro h
    exact ⟨_, Distinct.firstOccurrences_eraseDups _, h.symm⟩

/-- Null among type names leaves the others as they were, each where it first
stands. -/
theorem WithNull.others (h : WithNull types written) :
    nullName ∈ written
      ∧ (written.filter (· != nullName)).eraseDups
        = (types.filter (· != nullName)).eraseDups := by
  induction h with
  | once front back heq =>
      subst heq
      refine ⟨List.mem_append_right _ (List.mem_cons_self ..), ?_⟩
      rw [List.filter_append, List.filter_append,
        List.filter_cons_of_neg (by simp)]
  | @again front back name _ hname ih =>
      obtain ⟨hnull, hothers⟩ := ih
      have hmem : nullName ∈ front ++ name :: back := by
        rcases List.mem_append.1 hnull with h | h
        · exact List.mem_append_left _ h
        · exact List.mem_append_right _ (List.mem_cons_of_mem _ h)
      refine ⟨hmem, ?_⟩
      rw [← hothers, List.filter_append, List.filter_append]
      by_cases heq : name = nullName
      · rw [List.filter_cons_of_neg (by simp [heq])]
      · have hchosen : (name != nullName) = true := bne_iff_ne.2 heq
        have hfront : name ∈ front.filter (· != nullName) :=
          List.mem_filter.2 ⟨hname.resolve_left heq, hchosen⟩
        rw [List.filter_cons_of_pos (p := (· != nullName)) hchosen,
          Distinct.eraseDups_append_cons_of_mem hfront]

/-- A node that admits null by a name is spelled as one that admits it by its
flag. -/
theorem WithNull.canonicalTypes_eq_flagged (h : WithNull types written)
    (flag : Option Bool) :
    canonicalTypes written flag = canonicalTypes types (some true) := by
  obtain ⟨hnull, hothers⟩ := h.others
  rw [canonicalTypes_eq, canonicalTypes_eq, hothers, if_pos (Or.inl hnull),
    if_pos (Or.inr rfl)]

-- ========================================================= main result

/-- For all type names and every flag: a schema with these gets the canonical
spelling of them, of which there is one, and no flag. It is its own canonical
spelling and has the same first name other than null. And null among the names,
wherever it stands and whatever is repeated, comes to the same list as the flag
beside them. -/
theorem canonicalTypes_exact (types : List String) (nullable : Option Bool) :
    (∀ names, canonicalTypes types nullable = names
        ↔ CanonicalNames types nullable names)
      ∧ (∀ (s : Schema) (n : Nat),
          let node := ({ s with types, nullable }.canonical n).1
          node.types = canonicalTypes types nullable ∧ node.nullable = none)
      ∧ canonicalTypes (canonicalTypes types nullable) none
          = canonicalTypes types nullable
      ∧ primaryType (canonicalTypes types nullable) = primaryType types
      ∧ ∀ written flag, WithNull types written →
          canonicalTypes written flag = canonicalTypes types (some true) := by
  refine ⟨fun names => canonicalNames_iff.symm, fun s n => ?_,
    canonicalTypes_twice types nullable,
    primaryType_canonicalTypes types nullable,
    fun written flag h => h.canonicalTypes_eq_flagged flag⟩
  obtain ⟨_, _, _, _, _, _, _, hnode⟩ :=
    canonical_fst { s with types, nullable } n
  simp only [hnode, and_self]

/-- A text or a number, or null; in the newer spelling null stands between them,
and text is named twice. -/
theorem canonicalTypes_exact_text :
    WithNull ["string", "number"] ["string", "null", "number", "string"]
      ∧ canonicalTypes ["string", "null", "number", "string"] none
        = canonicalTypes ["string", "number"] (some true) := by
  have hwritten : WithNull ["string", "number"]
      ["string", "null", "number", "string"] :=
    .again ["string", "null", "number"] [] (.once ["string"] ["number"] rfl)
      (.inr (List.mem_cons_self ..))
  obtain ⟨-, -, -, -, hsame⟩ := canonicalTypes_exact ["string", "number"] none
  exact ⟨hwritten, hsame _ none hwritten⟩

end ApiForge.Schema
