import ApiForge.Proofs.Text.Split
import Mathlib.Data.List.TakeWhile
/-!
What trimming leaves.

A text is tight if no blank stands at either end of it. Trimming leaves the one
tight text that, with blanks around it, is the given one (`trim_eq_iff`): that it
leaves a tight text, and takes away blanks only, is one half, and that nothing
else does both is the other.
-/

namespace ApiForge.Text

-- ================================================ statement vocabulary

/-- A text of blanks only. -/
def Blanks (s : String) : Prop :=
  ∀ c ∈ s.toList, isBlank c = true

/-- A text that neither begins nor ends with a blank. -/
structure Tight (s : String) : Prop where
  first : ∀ c, s.toList.head? = some c → isBlank c = false
  last : ∀ c, s.toList.getLast? = some c → isBlank c = false

instance (s : String) : Decidable (Tight s) :=
  decidable_of_iff' (s.toList.head?.all (!isBlank ·) = true
    ∧ s.toList.getLast?.all (!isBlank ·) = true) <| by
  simp only [Option.all_eq_true, Bool.not_eq_true']
  exact ⟨fun h => ⟨h.first, h.last⟩, fun h => ⟨h.1, h.2⟩⟩

-- ============================================================ both ends

variable {before cs after : List Char}

/-- Blanks in front are dropped, and with nothing between them those behind too. -/
theorem trimStartChars_append (hbefore : ∀ c ∈ before, isBlank c = true)
    (hfirst : ∀ c, cs.head? = some c → isBlank c = false)
    (hafter : ∀ c ∈ after, isBlank c = true) :
    trimStartChars (before ++ (cs ++ after))
      = if cs = [] then [] else cs ++ after := by
  unfold trimStartChars
  rw [List.dropWhile_append_of_pos hbefore]
  cases cs with
  | nil => simpa using hafter
  | cons c cs =>
      have hc : ¬ isBlank c = true := by simp [hfirst c rfl]
      rw [List.cons_append, List.dropWhile_cons_of_neg hc]
      simp

/-- Blanks behind are dropped. -/
theorem trimEndChars_append
    (hlast : ∀ c, cs.getLast? = some c → isBlank c = false)
    (hafter : ∀ c ∈ after, isBlank c = true) :
    trimEndChars (cs ++ after) = cs := by
  unfold trimEndChars
  have hblank : ∀ c ∈ after.reverse, isBlank c = true := by simpa using hafter
  rw [List.reverse_append, List.dropWhile_append_of_pos hblank]
  cases hrev : cs.reverse with
  | nil => simpa using hrev.symm
  | cons c rest =>
      have hc : isBlank c = false := by
        apply hlast
        rw [← List.head?_reverse, hrev]
        rfl
      rw [List.dropWhile_cons_of_neg (by simp [hc]), ← hrev, List.reverse_reverse]

/-- Blanks at the front are taken away until something else comes. -/
theorem exists_trimStartChars (cs : List Char) : ∃ before,
    (∀ c ∈ before, isBlank c = true) ∧ cs = before ++ trimStartChars cs
      ∧ ∀ c, (trimStartChars cs).head? = some c → isBlank c = false := by
  refine ⟨cs.takeWhile isBlank, fun c hc => List.mem_takeWhile_imp hc,
    List.takeWhile_append_dropWhile.symm, fun c hc => ?_⟩
  unfold trimStartChars at hc
  exact of_head?_dropWhile hc

/-- Dropping the blanks behind takes a run of blanks away and leaves none at the end. -/
theorem exists_trimEndChars (cs : List Char) : ∃ after,
    (∀ c ∈ after, isBlank c = true) ∧ cs = trimEndChars cs ++ after
      ∧ ∀ c, (trimEndChars cs).getLast? = some c → isBlank c = false := by
  obtain ⟨before, hbefore, heq, hhead⟩ := exists_trimStartChars cs.reverse
  refine ⟨before.reverse, by simpa using hbefore, ?_, fun c hc => ?_⟩
  · show cs = (trimStartChars cs.reverse).reverse ++ before.reverse
    rw [← List.reverse_append, ← heq, List.reverse_reverse]
  · apply hhead
    rw [← hc]
    exact List.getLast?_reverse.symm

-- =============================================================== texts

/-- Trimming leaves what is tight and has blanks around it. -/
theorem trim_eq_iff {s t : String} : trim s = t
    ↔ Tight t ∧ ∃ before after, Blanks before ∧ Blanks after
        ∧ s = before ++ t ++ after := by
  constructor
  · rintro rfl
    obtain ⟨before, hbefore, hfront, hhead⟩ := exists_trimStartChars s.toList
    -- the blanks behind are those of what is left after the front is trimmed
    obtain ⟨after, hafter, hback, hlast⟩ :=
      exists_trimEndChars (trimStartChars s.toList)
    refine ⟨⟨fun c hc => hhead c ?_, fun c hc => hlast c ?_⟩,
      String.ofList before, String.ofList after, by simpa [Blanks] using hbefore,
      by simpa [Blanks] using hafter, ?_⟩
    · -- the first character that is left is the first behind the blanks
      rw [trim, String.toList_ofList] at hc
      rw [hback, List.head?_append, hc]
      rfl
    · rwa [trim, String.toList_ofList] at hc
    · apply String.toList_inj.1
      rw [trim, String.toList_append, String.toList_append, String.toList_ofList,
        String.toList_ofList, String.toList_ofList, List.append_assoc, ← hback]
      exact hfront
  · rintro ⟨htight, before, after, hbefore, hafter, rfl⟩
    unfold trim
    rw [String.toList_append, String.toList_append, List.append_assoc,
      trimStartChars_append hbefore htight.first hafter]
    split
    · next hempty =>
        obtain rfl := String.toList_eq_nil_iff.1 hempty
        rfl
    · rw [trimEndChars_append htight.last hafter, String.ofList_toList]

/-- Trimming brings nothing in. -/
theorem mem_of_mem_trim {s : String} {c : Char} (h : c ∈ (trim s).toList) :
    c ∈ s.toList := by
  obtain ⟨-, before, after, -, -, hwhole⟩ := trim_eq_iff.1 (rfl : trim s = _)
  rw [hwhole, String.toList_append, String.toList_append]
  exact List.mem_append_left _ (List.mem_append_right _ h)

-- =============================================================== joins

variable {s t : String}

/-- A join begins as its first part does, or as the second if that is empty. -/
theorem first_append (hs : ∀ c, s.toList.head? = some c → isBlank c = false)
    (ht : s = "" → ∀ c, t.toList.head? = some c → isBlank c = false) :
    ∀ c, (s ++ t).toList.head? = some c → isBlank c = false := by
  intro c hc
  rw [String.toList_append, List.head?_append, Option.or_eq_some_iff] at hc
  rcases hc with hc | ⟨hnone, hc⟩
  · exact hs c hc
  · exact ht (String.toList_eq_nil_iff.1 (List.head?_eq_none_iff.1 hnone)) c hc

/-- The end of two texts is that of the second, or of the first if there is no
second. -/
theorem last_append (ht : ∀ c, t.toList.getLast? = some c → isBlank c = false)
    (hs : t = "" → ∀ c, s.toList.getLast? = some c → isBlank c = false) :
    ∀ c, (s ++ t).toList.getLast? = some c → isBlank c = false := by
  intro c hc
  rw [String.toList_append, List.getLast?_append, Option.or_eq_some_iff] at hc
  rcases hc with hc | ⟨hnone, hc⟩
  · exact ht c hc
  · exact hs (String.toList_eq_nil_iff.1 (List.getLast?_eq_none_iff.1 hnone)) c hc

/-- Tight texts that are not empty may have anything between them. -/
theorem Tight.around (hs : Tight s) (ht : Tight t) (hsne : s ≠ "") (htne : t ≠ "")
    (between : String) : Tight (s ++ between ++ t) := by
  constructor
  · rw [String.append_assoc]
    exact first_append hs.first fun hempty => absurd hempty hsne
  · exact last_append ht.last fun hempty => absurd hempty htne

end ApiForge.Text
