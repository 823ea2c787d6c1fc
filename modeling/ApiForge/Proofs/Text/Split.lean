import ApiForge.Text.Blank
/-!
Splitting at cuts.

The pieces of a list hold no cut (`not_cut_of_mem_splitBy`), and joined with the
cut between them they are the list again (`intercalate_splitBy`). The two
together say what the pieces are: a list that is written as pieces with cuts
between is split into these pieces (`splitBy_append_cut`, `splitBy_of_uncut`,
and for all pieces at once `splitBy_intercalate`).
-/

namespace ApiForge.Text

variable {α : Type} {p : α → Bool}

/-- What stands behind an element that is not dropped stays. -/
theorem dropWhile_append_cons {a : α} (ha : p a = false) (l rest : List α) :
    (l ++ a :: rest).dropWhile p = l.dropWhile p ++ a :: rest := by
  rw [List.dropWhile_append, List.dropWhile_cons_of_neg (Bool.eq_false_iff.1 ha)]
  split
  · rename_i hempty
    rw [List.isEmpty_iff.1 hempty, List.nil_append]
  · rfl

/-- What is left begins with an element that is not dropped. -/
theorem of_head?_dropWhile {l : List α} {a : α}
    (h : (l.dropWhile p).head? = some a) : p a = false := by
  have hhead := List.head?_dropWhile_not p l
  rw [h] at hhead
  exact hhead

/-- What is taken ends in front of an element that is not. -/
theorem takeWhile_append_cons {l : List α} (h : ∀ x ∈ l, p x = true) {a : α}
    (ha : p a = false) (rest : List α) : (l ++ a :: rest).takeWhile p = l := by
  rw [List.takeWhile_append_of_pos h,
    List.takeWhile_cons_of_neg (Bool.eq_false_iff.1 ha), List.append_nil]

/-- A list without a cut is its only piece. -/
theorem splitBy_of_uncut {piece : List α} (h : ∀ a ∈ piece, p a = false) :
    splitBy p piece = [piece] := by
  induction piece with
  | nil => rfl
  | cons a piece ih =>
      have ha : p a = false := h a (List.mem_cons_self ..)
      rw [splitBy, ih fun x hx => h x (List.mem_cons_of_mem _ hx)]
      simp [ha]

/-- What stands before the first cut is the first piece. -/
theorem splitBy_append_cut {piece : List α} {c : α}
    (h : ∀ a ∈ piece, p a = false) (hc : p c = true) (rest : List α) :
    splitBy p (piece ++ c :: rest) = piece :: splitBy p rest := by
  induction piece with
  | nil =>
      rw [List.nil_append, splitBy]
      simp [hc]
  | cons a piece ih =>
      have ha : p a = false := h a (List.mem_cons_self ..)
      rw [List.cons_append, splitBy,
        ih fun x hx => h x (List.mem_cons_of_mem _ hx)]
      simp [ha]

/-- What stands before a cut and what stands after it are split apart. -/
theorem splitBy_append_cons {c : α} (hc : p c = true) (l rest : List α) :
    splitBy p (l ++ c :: rest) = splitBy p l ++ splitBy p rest := by
  induction l with
  | nil =>
      rw [List.nil_append, splitBy.eq_def, splitBy.eq_def p []]
      exact if_pos hc
  | cons a l ih =>
      rw [List.cons_append, splitBy, splitBy, ih]
      split
      · rfl
      · cases hl : splitBy p l with
        | nil => exact absurd hl (splitBy_ne_nil p l)
        | cons piece pieces => rfl

/-- No piece holds what pieces are cut at. -/
theorem not_cut_of_mem_splitBy {l piece : List α}
    (h : piece ∈ splitBy p l) : ∀ a ∈ piece, p a = false := by
  induction l generalizing piece with
  | nil =>
      cases List.mem_singleton.1 h
      exact fun c hc => absurd hc List.not_mem_nil
  | cons a rest ih =>
      rw [splitBy] at h
      split at h
      · rcases List.mem_cons.1 h with rfl | h
        · exact fun c hc => absurd hc List.not_mem_nil
        · exact ih h
      · rename_i ha
        split at h
        · rename_i hnil
          exact absurd hnil (splitBy_ne_nil p rest)
        · rename_i first pieces hrest
          rcases List.mem_cons.1 h with rfl | h
          · intro c hc
            rcases List.mem_cons.1 hc with rfl | hc
            · exact Bool.eq_false_iff.2 ha
            · exact ih (hrest ▸ List.mem_cons_self ..) c hc
          · exact ih (hrest ▸ List.mem_cons_of_mem _ h)

/-- The pieces hold everything but the cuts. -/
theorem flatten_splitBy (p : α → Bool) (l : List α) :
    (splitBy p l).flatten = l.filter fun a => !p a := by
  induction l with
  | nil => rfl
  | cons a rest ih =>
      rw [splitBy]
      split
      · rename_i ha
        rw [List.filter_cons_of_neg (by simp [ha]), ← ih]
        rfl
      · rename_i ha
        rw [List.filter_cons_of_pos (by simp [ha]), ← ih]
        cases splitBy p rest with
        | nil => rfl
        | cons piece pieces => rfl

/-- Joined with the cut between them, the pieces are the list. -/
theorem intercalate_splitBy [BEq α] [LawfulBEq α] (c : α) (l : List α) :
    [c].intercalate (splitBy (· == c) l) = l := by
  induction l with
  | nil => rfl
  | cons a rest ih =>
      rw [splitBy]
      cases hs : splitBy (· == c) rest with
      | nil => exact absurd hs (splitBy_ne_nil _ _)
      | cons piece pieces =>
          rw [hs] at ih
          by_cases ha : a = c
          · subst ha
            simp [← ih, List.intercalate_cons_cons]
          · cases pieces with
            | nil =>
                rw [List.intercalate_singleton] at ih
                simp [ha, ih]
            | cons next pieces =>
                simp only [beq_iff_eq, ha, ↓reduceIte,
                  List.intercalate_cons_cons, List.cons_append]
                rw [← ih, List.intercalate_cons_cons]

/-- What stands in joined pieces stands in one of them, or is the cut. -/
theorem mem_intercalate {a c : α} {pieces : List (List α)}
    (h : a ∈ [c].intercalate pieces) : a = c ∨ ∃ piece ∈ pieces, a ∈ piece := by
  match pieces with
  | [] => exact absurd h List.not_mem_nil
  | [piece] =>
      rw [List.intercalate_singleton] at h
      exact .inr ⟨piece, List.mem_singleton_self _, h⟩
  | piece :: next :: rest =>
      rw [List.intercalate_cons_cons, List.mem_append, List.mem_append] at h
      rcases h with (h | h) | h
      · exact .inr ⟨piece, List.mem_cons_self .., h⟩
      · exact .inl (List.mem_singleton.1 h)
      · refine (mem_intercalate h).imp_right fun ⟨x, hx, ha⟩ => ?_
        exact ⟨x, List.mem_cons_of_mem _ hx, ha⟩

/-- There is no cut at an element where the element does not stand. -/
theorem uncut_of_not_mem [BEq α] [LawfulBEq α] {c : α} {piece : List α}
    (h : c ∉ piece) : ∀ a ∈ piece, (a == c) = false := by
  intro a ha
  exact beq_eq_false_iff_ne.2 fun heq => h (heq ▸ ha)

/-- Pieces without the cut are what a list is split into that joins them with
it. -/
theorem splitBy_intercalate [BEq α] [LawfulBEq α] {c : α}
    {pieces : List (List α)} (hne : pieces ≠ [])
    (h : ∀ piece ∈ pieces, c ∉ piece) :
    splitBy (· == c) ([c].intercalate pieces) = pieces := by
  match pieces with
  | [] => exact absurd rfl hne
  | [piece] =>
      rw [List.intercalate_singleton]
      have hpiece := h piece (List.mem_singleton_self _)
      exact splitBy_of_uncut (uncut_of_not_mem hpiece)
  | piece :: next :: rest =>
      obtain ⟨hpiece, hrest⟩ := List.forall_mem_cons.1 h
      rw [List.intercalate_cons_cons, List.append_assoc, List.singleton_append,
        splitBy_append_cut (uncut_of_not_mem hpiece) (beq_self_eq_true c),
        splitBy_intercalate (List.cons_ne_nil _ _) hrest]

end ApiForge.Text
