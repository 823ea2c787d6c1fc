import Mathlib.Data.List.Nodup
import Mathlib.Data.Set.Card
/-!
Lists without repetitions. `List.eraseDups` keeps the first of equal members;
what it leaves repeats nothing, and it leaves a list that repeats nothing as it
is. It commutes with choosing members, and passes over a member that stands
before. Of any list it leaves the members in the order in which they first stand
there (`FirstOccurrences`), and that is one list only. A list that repeats no key
has as many members as there are keys.
-/

namespace ApiForge.Distinct

variable {α : Type} [BEq α] [LawfulBEq α]

/-- Nothing occurs twice when repetitions are erased. -/
theorem nodup_eraseDups (l : List α) : l.eraseDups.Nodup := by
  match l with
  | [] =>
      rw [List.eraseDups_nil]
      exact List.nodup_nil
  | a :: l =>
      rw [List.eraseDups_cons, List.nodup_cons, List.mem_eraseDups]
      refine ⟨fun ha => ?_, nodup_eraseDups _⟩
      have hne := (List.mem_filter.1 ha).2
      simp at hne
termination_by l.length
decreasing_by
  have := List.length_filter_le (fun b => !b == a) l
  simp only [List.length_cons]
  omega

/-- Without repetitions nothing is erased. -/
theorem eraseDups_of_nodup {l : List α} (h : l.Nodup) : l.eraseDups = l := by
  induction l with
  | nil => rfl
  | cons a l ih =>
      obtain ⟨ha, hl⟩ := List.nodup_cons.1 h
      have hkeep : l.filter (fun b => !b == a) = l := by
        refine List.filter_eq_self.2 fun b hb => ?_
        rw [Bool.not_eq_true', beq_eq_false_iff_ne]
        exact ne_of_mem_of_not_mem hb ha
      rw [List.eraseDups_cons, hkeep, ih hl]

/-- Repetitions may be erased before or after a filter. -/
theorem eraseDups_filter (p : α → Bool) (l : List α) :
    (l.filter p).eraseDups = l.eraseDups.filter p := by
  match l with
  | [] => rfl
  | a :: l =>
      have hswap : (l.filter p).filter (fun b => !b == a)
          = (l.filter fun b => !b == a).filter p := by
        simp only [List.filter_filter, Bool.and_comm]
      rw [List.eraseDups_cons, List.filter_cons, List.filter_cons]
      by_cases ha : p a
      · rw [if_pos ha, if_pos ha, List.eraseDups_cons, hswap, eraseDups_filter]
      · -- `a` is not among the chosen, so nothing else is taken out with it
        have hkeep : (l.filter p).filter (fun b => !b == a) = l.filter p := by
          refine List.filter_eq_self.2 fun b hb => ?_
          rw [Bool.not_eq_true', beq_eq_false_iff_ne]
          exact fun hba => ha (hba ▸ (List.mem_filter.1 hb).2)
        rw [if_neg ha, if_neg ha, ← eraseDups_filter, ← hswap, hkeep]
termination_by l.length
decreasing_by
  all_goals
    have := List.length_filter_le (fun b => !b == a) l
    simp only [List.length_cons]
    omega

/-- A member that stands before is passed over. -/
theorem eraseDups_append_cons_of_mem {front : List α} {a : α} (h : a ∈ front)
    (back : List α) :
    (front ++ a :: back).eraseDups = (front ++ back).eraseDups := by
  have hremove : (a :: back).removeAll front = back.removeAll front := by
    unfold List.removeAll
    rw [List.filter_cons_of_neg (by simpa using h)]
  rw [List.eraseDups_append, List.eraseDups_append, hremove]

/-- A further member is kept if it is new. -/
theorem eraseDups_snoc (l : List α) (a : α) :
    (l ++ [a]).eraseDups
      = if a ∈ l then l.eraseDups else l.eraseDups ++ [a] := by
  rw [List.eraseDups_append]
  by_cases ha : a ∈ l
  · rw [if_pos ha, List.removeAll, List.filter_cons_of_neg (by simpa using ha),
      List.filter_nil, List.eraseDups_nil, List.append_nil]
  · rw [if_neg ha, List.removeAll, List.filter_cons_of_pos (by simpa using ha),
      List.filter_nil, eraseDups_of_nodup (List.nodup_singleton a)]

-- ============================================================ first places

/-- The members of a list, in the order in which they first stand there; so none
of them stands twice. -/
structure FirstOccurrences (given kept : List α) : Prop where
  members : ∀ a, a ∈ kept ↔ a ∈ given
  order : kept.Pairwise fun a b => given.idxOf a < given.idxOf b

/-- Of two chosen members the one that comes first among the chosen comes first
among all. -/
theorem idxOf_lt_of_filter {p : α → Bool} {a b : α} (ha : p a) (hb : p b)
    {l : List α} (h : (l.filter p).idxOf a < (l.filter p).idxOf b) :
    l.idxOf a < l.idxOf b := by
  induction l with
  | nil => exact absurd h (Nat.lt_irrefl _)
  | cons c l ih =>
      by_cases hcb : c = b
      · subst hcb
        rw [List.filter_cons_of_pos hb, List.idxOf_cons_self] at h
        exact absurd h (Nat.not_lt_zero _)
      by_cases hca : c = a
      · subst hca
        rw [List.idxOf_cons_self, List.idxOf_cons_ne l hcb]
        exact Nat.succ_pos _
      rw [List.idxOf_cons_ne l hca, List.idxOf_cons_ne l hcb]
      refine Nat.succ_lt_succ (ih ?_)
      by_cases hc : p c
      · rw [List.filter_cons_of_pos hc, List.idxOf_cons_ne _ hca,
          List.idxOf_cons_ne _ hcb] at h
        exact Nat.lt_of_succ_lt_succ h
      · rwa [List.filter_cons_of_neg hc] at h

/-- What stays when repetitions are erased are the first occurrences. -/
theorem firstOccurrences_eraseDups (l : List α) :
    FirstOccurrences l l.eraseDups := by
  refine ⟨fun a => List.mem_eraseDups, ?_⟩
  match l with
  | [] =>
      rw [List.eraseDups_nil]
      exact .nil
  | a :: l =>
      rw [List.eraseDups_cons, List.pairwise_cons]
      -- what stands behind the first member is another one
      have hother {b : α} (hb : b ∈ (l.filter fun b => !b == a).eraseDups) :
          a ≠ b := by
        rintro rfl
        simpa using (List.mem_filter.1 (List.mem_eraseDups.1 hb)).2
      refine ⟨fun b hb => ?_, ?_⟩
      · rw [List.idxOf_cons_self, List.idxOf_cons_ne l (hother hb)]
        exact Nat.succ_pos _
      · refine (firstOccurrences_eraseDups _).order.imp_of_mem
          fun {b c} hb hc hlt => ?_
        rw [List.idxOf_cons_ne l (hother hb), List.idxOf_cons_ne l (hother hc)]
        have hchosen {b : α} (hb : a ≠ b) : (!b == a) = true := by
          simpa using Ne.symm hb
        exact Nat.succ_lt_succ (idxOf_lt_of_filter (p := fun b => !b == a)
          (hchosen (hother hb)) (hchosen (hother hc)) hlt)
termination_by l.length
decreasing_by
  have := List.length_filter_le (fun b => !b == a) l
  simp only [List.length_cons]
  omega

/-- There is one list only that has the members of another in this order. -/
theorem FirstOccurrences.eq_eraseDups {given kept : List α}
    (h : FirstOccurrences given kept) : kept = given.eraseDups := by
  have hfirst := firstOccurrences_eraseDups given
  have hnodup : kept.Nodup := h.order.imp fun {a b} hlt heq => by
    rw [heq] at hlt
    exact Nat.lt_irrefl _ hlt
  refine List.Perm.eq_of_pairwise (fun a b _ _ hab hba => ?_) h.order
    hfirst.order ?_
  · exact absurd (hab.trans hba) (Nat.lt_irrefl _)
  · refine (List.perm_ext_iff_of_nodup hnodup (nodup_eraseDups given)).2
      fun a => ?_
    rw [h.members, hfirst.members]

-- =================================================================== keys

omit [BEq α] [LawfulBEq α] in
/-- A table without repetitions has as many keys as bindings. -/
theorem encard_keys {β : Type} {l : List (α × β)}
    (h : (l.map Prod.fst).Nodup) : {a | ∃ b, (a, b) ∈ l}.encard = l.length := by
  classical
  have hkeys : {a | ∃ b, (a, b) ∈ l}
      = ((l.map Prod.fst).toFinset : Set α) := by
    ext a
    simp
  rw [hkeys, Set.encard_coe_eq_coe_finsetCard, List.toFinset_card_of_nodup h,
    List.length_map]

end ApiForge.Distinct
