import ApiForge.Proofs.Table
import ApiForge.Shape.Catalog
import Mathlib.Data.List.Count
/-!
Which names stand for records and which for scalars.

The kinds of names are closed under aliases in rounds, and the number of rounds
is fixed beforehand. A round that changes nothing has found a closed list, and
every other leaves fewer aliases whose names are missing (`missing`). So a
catalog, which allows a round for each alias, arrives at a closed list
(`closed_close`): a name is of a kind when its shape is (`mem_namesWhere`), or
when it is an alias of a name of this kind (`mem_namesWhere_of_alias`).
-/

namespace ApiForge

namespace Catalog

-- ============================================================== rounds

section Rounds

variable {aliases : Table String} {names : List String} {a : String × String}

/-- What an alias stands for is of a kind only if the alias is. -/
def Closed (aliases : Table String) (names : List String) : Prop :=
  ∀ a ∈ aliases, a.2 ∈ names → a.1 ∈ names

/-- A round keeps the names that are in the list. -/
theorem subset_closeOnce (aliases : Table String) (names : List String) :
    names ⊆ closeOnce aliases names := by
  induction aliases generalizing names with
  | nil => exact List.Subset.refl _
  | cons a rest ih =>
      rw [closeOnce, List.foldl_cons]
      refine List.Subset.trans ?_ (ih _)
      dsimp only
      split
      · exact List.subset_append_left ..
      · exact List.Subset.refl _

/-- A round takes an alias in when what it stands for is there. -/
theorem mem_closeOnce (ha : a ∈ aliases) (htarget : a.2 ∈ names) :
    a.1 ∈ closeOnce aliases names := by
  induction aliases generalizing names with
  | nil => exact absurd ha List.not_mem_nil
  | cons b rest ih =>
      rw [closeOnce, List.foldl_cons]
      dsimp only
      rcases List.mem_cons.1 ha with rfl | ha
      · refine subset_closeOnce rest _ ?_
        split
        · exact List.mem_append_right _ (List.mem_singleton_self _)
        · rename_i hkept
          simpa [htarget] using hkept
      · refine ih ha ?_
        split
        · exact List.mem_append_left _ htarget
        · exact htarget

/-- A round leaves a closed list as it is. -/
theorem closeOnce_of_closed (h : Closed aliases names) :
    closeOnce aliases names = names := by
  induction aliases with
  | nil => rfl
  | cons a rest ih =>
      have hkept : (names.contains a.2 && !names.contains a.1) = false := by
        by_cases htarget : a.2 ∈ names
        · simp [h a (List.mem_cons_self ..) htarget]
        · simp [htarget]
      rw [closeOnce, List.foldl_cons]
      dsimp only
      rw [if_neg (Bool.eq_false_iff.1 hkept)]
      exact ih fun b hb => h b (List.mem_cons_of_mem _ hb)

theorem close_of_closed (h : Closed aliases names) (rounds : Nat) :
    close aliases names rounds = names := by
  induction rounds with
  | zero => rfl
  | succ rounds ih => rw [close, closeOnce_of_closed h, ih]

/-- The number of aliases that are not of a kind. -/
def missing (aliases : Table String) (names : List String) : Nat :=
  aliases.countP fun a => !names.contains a.1

/-- Unless a list is closed, a round leaves fewer aliases missing. -/
theorem missing_closeOnce_lt (h : ¬ Closed aliases names) :
    missing aliases (closeOnce aliases names) < missing aliases names := by
  unfold Closed at h
  push Not at h
  obtain ⟨a, ha, htarget, hname⟩ := h
  -- a round misses no more than before, and one alias fewer where the list was not
  -- closed
  have hfewer (l : Table String) :
      missing l (closeOnce aliases names) ≤ missing l names := by
    refine List.countP_mono_left fun b _ hb => ?_
    simp only [Bool.not_eq_true', List.contains_eq_mem,
      decide_eq_false_iff_not] at hb ⊢
    exact fun hmem => hb (subset_closeOnce aliases names hmem)
  have hfound := mem_closeOnce ha htarget
  obtain ⟨front, back, hsplit⟩ := List.append_of_mem ha
  have hfront := hfewer front
  have hback := hfewer back
  have hcount (names : List String) : missing aliases names
      = missing front names + (missing back names
          + if (!names.contains a.1) then 1 else 0) := by
    rw [missing, hsplit, List.countP_append, List.countP_cons]
    rfl
  rw [hcount, hcount names]
  simp only [List.contains_iff_mem.2 hfound, List.contains_eq_mem, hname]
  simp only [Bool.not_true, Bool.false_eq_true, decide_false, Bool.not_false,
    if_false, if_true]
  omega

/-- Rounds keep the names that are in the list. -/
theorem subset_close (aliases : Table String) (names : List String)
    (rounds : Nat) : names ⊆ close aliases names rounds := by
  induction rounds generalizing names with
  | zero => exact List.Subset.refl _
  | succ rounds ih =>
      exact List.Subset.trans (subset_closeOnce aliases names) (ih _)

/-- As many rounds as aliases are missing lead to a closed list. -/
theorem closed_close {rounds : Nat} (h : missing aliases names ≤ rounds) :
    Closed aliases (close aliases names rounds) := by
  induction rounds generalizing names with
  | zero =>
      intro a ha _
      have hthere := List.countP_eq_zero.1 (Nat.le_zero.1 h) a ha
      simpa [close] using hthere
  | succ rounds ih =>
      by_cases hclosed : Closed aliases names
      · rw [close_of_closed hclosed]
        exact hclosed
      · have hless := missing_closeOnce_lt hclosed
        exact ih (by omega)

/-- What holds of names, and passes from what an alias stands for to the alias,
holds of all names in the list that is closed. -/
theorem close_induct {P : String → Prop} {aliases : Table String}
    {names : List String} (hnames : ∀ n ∈ names, P n)
    (halias : ∀ a ∈ aliases, P a.2 → P a.1) (rounds : Nat) :
    ∀ n ∈ close aliases names rounds, P n := by
  -- one round first, by induction on the aliases; then all rounds
  have once (aliases : Table String) (names : List String)
      (hnames : ∀ n ∈ names, P n) (halias : ∀ a ∈ aliases, P a.2 → P a.1) :
      ∀ n ∈ closeOnce aliases names, P n := by
    induction aliases generalizing names with
    | nil => exact hnames
    | cons a rest ih =>
        rw [closeOnce, List.foldl_cons]
        refine ih _ ?_ fun b hb => halias b (List.mem_cons_of_mem _ hb)
        dsimp only
        split
        · rename_i htaken
          intro n hn
          rcases List.mem_append.1 hn with hn | hn
          · exact hnames n hn
          · rw [List.mem_singleton.1 hn]
            rw [Bool.and_eq_true, List.contains_iff_mem] at htaken
            exact halias a (List.mem_cons_self ..) (hnames _ htaken.1)
        · exact hnames
  induction rounds generalizing names with
  | zero => exact hnames
  | succ rounds ih => exact ih (once aliases names hnames halias)

end Rounds

-- =============================================================== kinds

variable {entries : List CatalogEntry} {p : Shape → Bool} {e : CatalogEntry}

/-- A name is of a kind when its shape is. -/
theorem mem_namesWhere (he : e ∈ entries) (hp : p e.shape = true) :
    e.name ∈ namesWhere entries p :=
  subset_close _ _ _
    (List.mem_map_of_mem (List.mem_filter.2 ⟨he, hp⟩))

/-- The alias that a catalog entry is. -/
def alias? (e : CatalogEntry) : Option (String × String) :=
  match e.shape with
  | .named target => some (e.name, target)
  | _ => none

/-- An entry is an alias when its shape is the name of another. -/
theorem alias?_eq_some_iff {a : String × String} :
    alias? e = some a ↔ e.name = a.1 ∧ e.shape = .named a.2 := by
  obtain ⟨name, target⟩ := a
  unfold alias?
  split
  · rename_i other hshape
    simp [hshape]
  · rename_i hother
    simpa using fun _ hshape => hother target hshape

/-- An alias is that of an entry. -/
theorem exists_of_mem_aliases {a : String × String} (h : a ∈ aliases entries) :
    ∃ x ∈ entries, x.name = a.1 ∧ x.shape = .named a.2 := by
  obtain ⟨x, hx, halias⟩ := List.mem_filterMap.1 (Table.mem_ofList h)
  exact ⟨x, hx, alias?_eq_some_iff.1 halias⟩

/-- The names of aliases stand in the order of their entries. -/
theorem names_aliases_sublist (entries : List CatalogEntry) :
    ((entries.filterMap alias?).map (·.1)).Sublist
      (entries.map (·.name)) := by
  induction entries with
  | nil => exact .slnil
  | cons e rest ih =>
      rw [List.map_cons]
      cases h : alias? e with
      | none =>
          rw [List.filterMap_cons_none h]
          exact .cons _ ih
      | some a =>
          rw [List.filterMap_cons_some h, List.map_cons,
            (alias?_eq_some_iff.1 h).1]
          exact .cons_cons _ ih

/-- An entry that is an alias is in the table of aliases. -/
theorem mem_aliases (hdistinct : (entries.map (·.name)).Nodup)
    (he : e ∈ entries) {target : String} (hshape : e.shape = .named target) :
    (e.name, target) ∈ aliases entries := by
  refine Table.mem_ofList_of_nodup
    (hdistinct.sublist (names_aliases_sublist entries)) ?_
  exact List.mem_filterMap.2 ⟨e, he, alias?_eq_some_iff.2 ⟨rfl, hshape⟩⟩

/-- A name is of a kind when it is an alias of a name of this kind. -/
theorem mem_namesWhere_of_alias (hdistinct : (entries.map (·.name)).Nodup)
    (he : e ∈ entries) {target : String} (hshape : e.shape = .named target)
    (htarget : target ∈ namesWhere entries p) :
    e.name ∈ namesWhere entries p :=
  closed_close List.countP_le_length _ (mem_aliases hdistinct he hshape) htarget

end Catalog

end ApiForge
