import ApiForge.Proofs.Shape.Parts
import Mathlib.Data.List.Perm.Subperm
/-!
What merging declares, whatever its budget.

`Document.declarations` spends its budget on the pointers that it follows. All
pointers that it can meet are in one list, `Document.mergePointers`, and none
is followed while it is on the stack. So the stack never outgrows that list,
and a budget that the list allows for is as good as any larger one
(`declarations_of_enough`): what merging a schema declares does not depend on
where the bound was set (`merge_eq`).
-/

namespace ApiForge

open Hereditary (memberSteps mergeSteps_eq)

namespace Schema

/-- The pointers of a merge are those that one of its steps follows. -/
theorem mem_mergePointers {s : Schema} {p : String} :
    p ∈ s.mergePointers ↔ .follow p ∈ s.mergeSteps := by
  rw [mergePointers, List.mem_filterMap]
  constructor
  · rintro ⟨step, hstep, hp⟩
    cases step with
    | follow q =>
        cases hp
        exact hstep
    | declare _ _ => cases hp
  · intro h
    exact ⟨_, h, rfl⟩

end Schema

namespace Document

variable {d : Document} {pool stack : List String} {steps : List MergeStep}

/-- Steps follow pointers of a list only. -/
def FollowsIn (pool : List String) (steps : List MergeStep) : Prop :=
  ∀ p, .follow p ∈ steps → p ∈ pool

/-- A stack without repetitions that is as long as the list of all pointers
holds each of them. -/
theorem contains_of_full (hstack : stack.Nodup) (hsub : stack ⊆ pool)
    (hfull : pool.length ≤ stack.length) {p : String} (hp : p ∈ pool) :
    stack.contains p = true := by
  have hperm := (List.subperm_of_subset hstack hsub).perm_of_length_le hfull
  exact List.contains_iff_mem.2 (hperm.mem_iff.2 hp)

/-- A larger budget does not change what is declared once there is enough for
the pointers that are not on the stack. -/
theorem declarations_of_enough {budget : Nat} (more : Nat)
    (hpool : ∀ e ∈ d.schemas, FollowsIn pool e.2.mergeSteps)
    (hsteps : FollowsIn pool steps) (hstack : stack.Nodup) (hsub : stack ⊆ pool)
    (henough : pool.length ≤ budget + stack.length) :
    d.declarations (budget + more) stack steps
      = d.declarations budget stack steps := by
  induction budget generalizing stack steps with
  | zero =>
      cases more with
      | zero => rfl
      | succ more =>
          refine List.flatMap_congr fun step hstep => ?_
          cases step with
          | declare properties required => rfl
          | follow p =>
              dsimp only
              -- without budget all pointers are on the stack, so none is followed
              rw [contains_of_full hstack hsub (by simpa using henough)
                (hsteps p hstep), if_pos rfl]
  | succ budget ih =>
      rw [Nat.succ_add]
      refine List.flatMap_congr fun step hstep => ?_
      cases step with
      | declare properties required => rfl
      | follow p =>
          dsimp only
          by_cases hp : stack.contains p = true
          · rw [if_pos hp, if_pos hp]
          rw [if_neg hp, if_neg hp]
          cases htarget : d.resolveSchema p with
          | error e => rfl
          | ok target =>
              dsimp only
              cases target.pointer with
              | some _ => rfl
              | none =>
                  obtain ⟨a, ha⟩ := resolveSchema_eq_ok_iff.1 htarget
                  refine ih (hpool (a.name, target) ha.holds) ?_ ?_ ?_
                  · rw [List.contains_iff_mem] at hp
                    exact List.nodup_cons.2 ⟨hp, hstack⟩
                  · exact List.cons_subset.2 ⟨hsteps p hstep, hsub⟩
                  · rw [List.length_cons]
                    omega

/-- A merge follows pointers of its list: those of the schema that is merged. -/
theorem followsIn_mergePointers (d : Document) (s : Schema) :
    FollowsIn (d.mergePointers s) s.mergeSteps := by
  intro p hp
  rw [mergePointers, List.mem_eraseDups]
  exact List.mem_append_left _ (Schema.mem_mergePointers.2 hp)

/-- A merge follows pointers of its list: those of the component schemas. -/
theorem followsIn_mergePointers_of_mem (d : Document) (s : Schema) :
    ∀ e ∈ d.schemas, FollowsIn (d.mergePointers s) e.2.mergeSteps := by
  intro e he p hp
  rw [mergePointers, List.mem_eraseDups]
  exact List.mem_append_right _
    (List.mem_flatMap.2 ⟨e, he, Schema.mem_mergePointers.2 hp⟩)

/-- What merging a schema declares is declared under every budget from its own
on. -/
theorem merge_eq (d : Document) (s : Schema) {budget : Nat}
    (h : (d.mergePointers s).length ≤ budget) :
    d.merge s = d.declarations budget [] s.mergeSteps := by
  obtain ⟨more, rfl⟩ := Nat.exists_eq_add_of_le h
  rw [merge]
  exact (declarations_of_enough more (d.followsIn_mergePointers_of_mem s)
    (d.followsIn_mergePointers s) List.nodup_nil (List.nil_subset _)
    (Nat.le_add_right _ _)).symm

end Document

end ApiForge
