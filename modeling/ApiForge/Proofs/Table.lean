import ApiForge.Table
import Mathlib.Data.List.Forall2
import Mathlib.Data.List.Induction
import Mathlib.Data.List.Nodup
/-!
Tables in key order, and tables of lists.

A binding finds its place in the order (`Sorted.insert`), so the table of a list
is sorted, whatever the order of the list, and binds no key twice. Of several
bindings of a key it has the last (`mem_ofList_iff`), and bindings of other keys
make no difference to a key, wherever they stand.
-/

namespace ApiForge.Table

variable {α : Type} {k : String} {a : α} {t t' : Table α}

-- =============================================================== order

/-- A binding finds its place in the order. -/
theorem Sorted.insert (h : t.Sorted) (k : String) (a : α) :
    (t.insert k a).Sorted := by
  induction t with
  | nil => exact List.pairwise_singleton _ _
  | cons b rest ih =>
      obtain ⟨j, b⟩ := b
      obtain ⟨hj, hrest⟩ := List.pairwise_cons.1 h
      rw [Table.insert]
      by_cases hkj : k < j
      · rw [if_pos hkj]
        refine List.pairwise_cons.2 ⟨fun e he => ?_, h⟩
        rcases List.mem_cons.1 he with rfl | he
        · exact hkj
        · exact String.lt_trans hkj (hj e he)
      · rw [if_neg hkj]
        by_cases heq : k = j
        · rw [if_pos heq, heq]
          exact List.pairwise_cons.2 ⟨hj, hrest⟩
        · rw [if_neg heq]
          -- neither smaller nor equal, so the key stands further behind
          have hjk : j < k := by
            have hle : j ≤ k := String.not_lt.1 hkj
            refine String.not_le.1 fun hkj' => ?_
            exact heq (String.le_antisymm hkj' hle)
          refine List.pairwise_cons.2 ⟨fun e he => ?_, ih hrest⟩
          rcases mem_insert he with rfl | he
          · exact hjk
          · exact hj e he

/-- A table that is made of a list is sorted. -/
theorem sorted_ofList (bindings : List (String × α)) :
    (Table.ofList bindings).Sorted := by
  have step (t : Table α) (h : t.Sorted) :
      (bindings.foldl (fun t b => t.insert b.1 b.2) t).Sorted := by
    induction bindings generalizing t with
    | nil => exact h
    | cons b rest ih => exact ih _ (h.insert b.1 b.2)
  exact step [] .nil

theorem sorted_iff_keys : t.Sorted ↔ t.keys.Pairwise (· < ·) :=
  List.pairwise_map.symm

/-- No key stands twice in a table in order. -/
theorem Sorted.nodup_keys (h : t.Sorted) : t.keys.Nodup := by
  refine (sorted_iff_keys.1 h).imp fun {j k} hlt heq => ?_
  rw [heq] at hlt
  exact String.lt_irrefl k hlt

-- ============================================================= look-up

/-- With different keys a binding is what its key finds. -/
theorem get?_of_mem (hnodup : t.keys.Nodup) (h : (k, a) ∈ t) :
    t.get? k = some a := by
  induction t with
  | nil => exact absurd h List.not_mem_nil
  | cons b rest ih =>
      obtain ⟨j, b⟩ := b
      obtain ⟨hj, hrest⟩ := List.nodup_cons.1 hnodup
      rw [get?]
      rcases List.mem_cons.1 h with heq | h
      · cases heq
        rw [if_pos rfl]
      · have hne : j ≠ k := by
          rintro rfl
          exact hj (List.mem_map.2 ⟨_, h, rfl⟩)
        rw [if_neg hne, ih hrest h]

/-- A key is looked up in the first part, and then in the second. -/
theorem get?_append (k : String) (t t' : Table α) :
    get? k (t ++ t') = (get? k t).or (get? k t') := by
  induction t with
  | nil => rfl
  | cons e t ih =>
      obtain ⟨j, b⟩ := e
      rw [List.cons_append, get?, get?]
      split
      · rfl
      · exact ih

/-- Values that are mapped are found under the same keys. -/
theorem get?_map {β : Type} (f : α → β) (k : String) (t : Table α) :
    get? k (t.map fun e => (e.1, f e.2)) = (get? k t).map f := by
  induction t with
  | nil => rfl
  | cons e t ih =>
      obtain ⟨j, b⟩ := e
      rw [List.map_cons, get?, get?, ih]
      split <;> rfl

/-- Nothing is found under what is no key. -/
theorem get?_eq_none_iff : t.get? k = none ↔ k ∉ t.keys := by
  induction t with
  | nil => simp [get?, keys]
  | cons b rest ih =>
      obtain ⟨j, b⟩ := b
      rw [get?]
      by_cases hj : j = k
      · simp [hj, keys]
      · simpa [hj, keys, Ne.symm hj] using ih

/-- In a table of a list a binding is what is found under its key. -/
theorem mem_ofList_iff_get? {l : List (String × α)} :
    (k, a) ∈ ofList l ↔ (ofList l).get? k = some a :=
  ⟨get?_of_mem (sorted_ofList l).nodup_keys, mem_of_get?⟩

/-- Later bindings of other keys leave the value of a key as it was. -/
theorem get?_foldl_insert {bindings : List (String × α)}
    (h : k ∉ bindings.map (·.1)) (t : Table α) :
    (bindings.foldl (fun t b => t.insert b.1 b.2) t).get? k = t.get? k := by
  induction bindings generalizing t with
  | nil => rfl
  | cons b rest ih =>
      rw [List.map_cons, List.mem_cons, not_or] at h
      rw [List.foldl_cons, ih h.2, get?_insert_of_ne (Ne.symm h.1)]

/-- A table of a list binds a key to the value to which the list binds it
last. -/
theorem mem_ofList_iff {bindings : List (String × α)} :
    (k, a) ∈ ofList bindings
      ↔ ∃ front back, bindings = front ++ (k, a) :: back
          ∧ k ∉ back.map (·.1) := by
  rw [mem_ofList_iff_get?]
  constructor
  · intro h
    -- from the end: the last binding of the key is the one that counts
    induction bindings using List.reverseRecOn with
    | nil => cases h
    | append_singleton bindings b ih =>
        rw [ofList, List.foldl_append, List.foldl_cons, List.foldl_nil] at h
        by_cases hb : b.1 = k
        · subst hb
          rw [get?_insert_self] at h
          cases h
          exact ⟨bindings, [], rfl, List.not_mem_nil⟩
        · rw [get?_insert_of_ne hb] at h
          obtain ⟨front, back, rfl, hback⟩ := ih h
          refine ⟨front, back ++ [b], by simp, ?_⟩
          rw [List.map_append, List.mem_append, not_or]
          exact ⟨hback, by simpa using Ne.symm hb⟩
  · rintro ⟨front, back, rfl, hback⟩
    rw [ofList, List.foldl_append, List.foldl_cons, get?_foldl_insert hback,
      get?_insert_self]

/-- Bindings of different keys are all in the table of them. -/
theorem mem_ofList_of_nodup {bindings : List (String × α)}
    (hnodup : (bindings.map (·.1)).Nodup) (h : (k, a) ∈ bindings) :
    (k, a) ∈ ofList bindings := by
  obtain ⟨front, back, rfl⟩ := List.append_of_mem h
  rw [List.map_append, List.map_cons] at hnodup
  have hlater : k ∉ back.map (·.1) :=
    (List.nodup_cons.1 (List.nodup_append.1 hnodup).2.1).1
  exact mem_ofList_iff.2 ⟨front, back, rfl, hlater⟩

/-- The value of a key depends on what was bound to it before, and on nothing
else there. -/
theorem get?_foldl_insert_congr (h : t.get? k = t'.get? k)
    (l : List (String × α)) :
    (l.foldl (fun t b => t.insert b.1 b.2) t).get? k
      = (l.foldl (fun t b => t.insert b.1 b.2) t').get? k := by
  induction l generalizing t t' with
  | nil => exact h
  | cons b rest ih =>
      refine ih ?_
      by_cases hb : b.1 = k
      · rw [← hb, get?_insert_self, get?_insert_self]
      · rw [get?_insert_of_ne hb, get?_insert_of_ne hb, h]

/-- A binding of another key makes no difference, wherever it stands. -/
theorem get?_ofList_append_cons {b : String × α} (hb : b.1 ≠ k)
    (l l' : List (String × α)) :
    (ofList (l ++ b :: l')).get? k = (ofList (l ++ l')).get? k := by
  rw [ofList, ofList, List.foldl_append, List.foldl_append, List.foldl_cons]
  exact get?_foldl_insert_congr (get?_insert_of_ne hb _ _) l'

-- ================================================================ keys

/-- A key is bound after an insertion just when it is the new one or was bound
before. -/
theorem mem_keys_insert {t : Table α} (j : String) (a : α) :
    k ∈ (t.insert j a).keys ↔ k = j ∨ k ∈ t.keys := by
  induction t with
  | nil => simp [insert, keys]
  | cons b rest ih =>
      obtain ⟨i, b⟩ := b
      rw [insert]
      split
      · simp [keys]
      · split
        · rename_i hji
          subst hji
          simp [keys]
        · simp only [keys, List.map_cons, List.mem_cons] at ih ⊢
          rw [ih, or_left_comm]

/-- The table of a list has the keys of the list. -/
theorem mem_keys_ofList {l : List (String × α)} :
    k ∈ (ofList l).keys ↔ k ∈ l.map (·.1) := by
  have step (t : Table α) :
      k ∈ (l.foldl (fun t b => t.insert b.1 b.2) t).keys
        ↔ k ∈ l.map (·.1) ∨ k ∈ t.keys := by
    induction l generalizing t with
    | nil => simp
    | cons b rest ih =>
        rw [List.foldl_cons, ih, mem_keys_insert, List.map_cons, List.mem_cons,
          or_left_comm, or_assoc]
  exact (step []).trans (or_iff_left List.not_mem_nil)

-- ========================================================= two tables

variable {β : Type} {R : α → β → Prop} {l : List (String × α)}
  {l' : List (String × β)}

/-- The same keys in the same order, with values that are related. -/
def Matched (R : α → β → Prop) (l : List (String × α))
    (l' : List (String × β)) : Prop :=
  List.Forall₂ (fun e e' => e.1 = e'.1 ∧ R e.2 e'.2) l l'

namespace Matched

/-- Inserting related values under one key keeps tables matched. -/
theorem insert (h : Matched R l l') (k : String) {a : α} {b : β} (hab : R a b) :
    Matched R (Table.insert k a l) (Table.insert k b l') := by
  induction h with
  | nil => exact .cons ⟨rfl, hab⟩ .nil
  | @cons e e' l l' he hl ih =>
      obtain ⟨j, c⟩ := e
      obtain ⟨j', c'⟩ := e'
      obtain ⟨rfl, hc⟩ := he
      unfold Table.insert
      split
      · exact .cons ⟨rfl, hab⟩ (.cons ⟨rfl, hc⟩ hl)
      · split
        · exact .cons ⟨rfl, hab⟩ hl
        · exact .cons ⟨rfl, hc⟩ ih

/-- Lists that match make tables that do. -/
theorem ofList (h : Matched R l l') :
    Matched R (Table.ofList l) (Table.ofList l') := by
  have step (t : Table α) (t' : Table β) (ht : Matched R t t') :
      Matched R (l.foldl (fun t b => Table.insert b.1 b.2 t) t)
        (l'.foldl (fun t b => Table.insert b.1 b.2 t) t') := by
    induction h generalizing t t' with
    | nil => exact ht
    | @cons e e' _ _ he _ ih =>
        obtain ⟨hkey, hvalue⟩ := he
        rw [List.foldl_cons, List.foldl_cons, hkey]
        exact ih _ _ (ht.insert e'.1 hvalue)
  exact step [] [] .nil

/-- Matched tables have related values under each key, or none. -/
theorem get? (h : Matched R l l') (k : String) :
    Option.Rel R (Table.get? k l) (Table.get? k l') := by
  induction h with
  | nil => exact .none
  | @cons e e' _ _ he _ ih =>
      obtain ⟨j, c⟩ := e
      obtain ⟨j', c'⟩ := e'
      obtain ⟨rfl, hc⟩ := he
      unfold Table.get?
      split
      · exact .some hc
      · exact ih

theorem values (h : Matched R l l') :
    List.Forall₂ R (l.map (·.2)) (l'.map (·.2)) := by
  rw [List.forall₂_map_left_iff, List.forall₂_map_right_iff]
  exact h.imp fun _ _ he => he.2

/-- What is listed of related values is listed of matching tables. -/
theorem flatMap {γ δ : Type} {P : γ → δ → Prop} {f : α → List γ}
    {g : β → List δ} (hfg : ∀ a b, R a b → List.Forall₂ P (f a) (g b))
    (h : Matched R l l') :
    List.Forall₂ P (l.flatMap fun e => f e.2) (l'.flatMap fun e => g e.2) := by
  induction h with
  | nil => exact .nil
  | cons he _ ih =>
      rw [List.flatMap_cons, List.flatMap_cons]
      exact List.rel_append (hfg _ _ he.2) ih

end Matched

end ApiForge.Table
