/-!
Tables: association lists in the order of their keys. Every table that a
document holds (paths, schemas, properties, content) is one, so walking it in
list order is walking it in key order. Texts are ordered by their code points,
which is also the order of their UTF-8 octets.
-/

namespace ApiForge

/-- Keys with their values. -/
abbrev Table (α : Type) : Type := List (String × α)

namespace Table

variable {α : Type}

/-- Keys stand in strictly increasing order. -/
def Sorted (t : Table α) : Prop :=
  t.Pairwise fun a b => a.1 < b.1

/-- Binds a key to a value in key order; an older binding of the key is replaced. -/
def insert (k : String) (a : α) : Table α → Table α
  | [] => [(k, a)]
  | (j, b) :: rest =>
    if k < j then (k, a) :: (j, b) :: rest
    else if k = j then (k, a) :: rest
    else (j, b) :: insert k a rest

/-- The value bound to a key. -/
def get? (k : String) : Table α → Option α
  | [] => none
  | (j, b) :: rest => if j = k then some b else get? k rest

/-- Whether a key is bound. -/
def has (k : String) (t : Table α) : Bool :=
  (t.get? k).isSome

/-- The keys in order. -/
def keys (t : Table α) : List String :=
  t.map Prod.fst

/-- The table of a list of bindings; of two for one key the later counts. -/
def ofList (bindings : List (String × α)) : Table α :=
  bindings.foldl (fun t b => t.insert b.1 b.2) []

-- ======================================================== look-up laws

/-- After binding a key, the key has that value. -/
theorem get?_insert_self (k : String) (a : α) (t : Table α) :
    (t.insert k a).get? k = some a := by
  induction t with
  | nil => simp [insert, get?]
  | cons b rest ih =>
    obtain ⟨j, b⟩ := b
    simp only [insert]
    split
    · simp [get?]
    · split
      · simp [get?]
      · rename_i _ hne
        simp [get?, Ne.symm hne, ih]

/-- Binding a key leaves the other keys as they were. -/
theorem get?_insert_of_ne {k k' : String} (h : k ≠ k') (a : α) (t : Table α) :
    (t.insert k a).get? k' = t.get? k' := by
  induction t with
  | nil => simp [insert, get?, h]
  | cons b rest ih =>
    obtain ⟨j, b⟩ := b
    simp only [insert]
    split
    · simp [get?, h]
    · split
      · rename_i hkj
        subst hkj
        simp [get?, h]
      · simp [get?, ih]

/-- What is found under a key is bound to it. -/
theorem mem_of_get? {k : String} {a : α} {t : Table α} (h : t.get? k = some a) :
    (k, a) ∈ t := by
  induction t with
  | nil => cases h
  | cons b rest ih =>
    obtain ⟨j, b⟩ := b
    rw [get?] at h
    split at h
    · rename_i hjk
      injection h with hba
      rw [hjk, hba]
      exact List.mem_cons_self ..
    · exact List.mem_cons_of_mem _ (ih h)

/-- What a table binds after an insertion is the new binding or an older one. -/
theorem mem_insert {k : String} {a : α} {t : Table α} {b : String × α}
    (h : b ∈ t.insert k a) : b = (k, a) ∨ b ∈ t := by
  induction t with
  | nil => exact .inl (List.mem_singleton.1 h)
  | cons c rest ih =>
    obtain ⟨j, c⟩ := c
    rw [insert] at h
    split at h
    · exact List.mem_cons.1 h
    · split at h
      · rcases List.mem_cons.1 h with h | h
        · exact .inl h
        · exact .inr (List.mem_cons_of_mem _ h)
      · rcases List.mem_cons.1 h with rfl | h
        · exact .inr (List.mem_cons_self ..)
        · exact (ih h).imp_right (List.mem_cons_of_mem _)

/-- The table of a list binds nothing that the list does not. -/
theorem mem_ofList {bindings : List (String × α)} {b : String × α}
    (h : b ∈ ofList bindings) : b ∈ bindings := by
  have step (bindings : List (String × α)) (t : Table α)
      (h : b ∈ bindings.foldl (fun t b => t.insert b.1 b.2) t) :
      b ∈ bindings ∨ b ∈ t := by
    induction bindings generalizing t with
    | nil => exact .inr h
    | cons c rest ih =>
      rcases ih _ h with h | h
      · exact .inl (List.mem_cons_of_mem _ h)
      · rcases mem_insert h with rfl | h
        · exact .inl (List.mem_cons_self ..)
        · exact .inr h
  exact (step bindings [] h).resolve_right List.not_mem_nil

end Table

end ApiForge
