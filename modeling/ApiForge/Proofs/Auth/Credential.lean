import ApiForge.Auth.Credential
import ApiForge.Proofs.Http.Header
import Mathlib.Data.List.TakeWhile
/-!
What credentials are cut out of.

One statement for each step on the way from a header to a credential: what a text
is cut into, what stands behind a scheme word, and which text is looked at.
-/

namespace ApiForge.Auth

open ApiForge.Http (Header Request)

variable {r : Request}

/-- A text counts when it is not empty, and then as it is. -/
theorem nonEmpty_eq_some_iff {s t : String} :
    nonEmpty s = some t ↔ s = t ∧ t ≠ "" := by
  unfold nonEmpty
  by_cases h : s = ""
  · subst h
    simp only [show ("" : String).isEmpty = true from rfl, if_true]
    constructor
    · intro h
      cases h
    · rintro ⟨rfl, hne⟩
      exact absurd rfl hne
  · have hempty : s.isEmpty = false := by simpa using h
    rw [hempty]
    constructor
    · intro heq
      cases heq
      exact ⟨rfl, h⟩
    · rintro ⟨rfl, -⟩
      rfl

/-- A text is cut at the first occurrence of a character. -/
theorem cutAt_eq_some_iff {c : Char} {s first rest : String} :
    cutAt c s = some (first, rest)
      ↔ s = first ++ String.singleton c ++ rest ∧ c ∉ first.toList := by
  have hchars : s = first ++ String.singleton c ++ rest
      ↔ s.toList = first.toList ++ c :: rest.toList := by
    rw [← String.toList_inj]
    simp
  rw [hchars]
  unfold cutAt
  constructor
  · intro h
    -- what is dropped first is the sign itself, if anything is dropped
    have hhead := List.head?_dropWhile_not (· != c) s.toList
    have hsplit : s.toList.takeWhile (· != c) ++ s.toList.dropWhile (· != c)
        = s.toList := List.takeWhile_append_dropWhile
    cases hdrop : s.toList.dropWhile (· != c) with
    | nil =>
        rw [hdrop] at h
        cases h
    | cons d ds =>
        rw [hdrop] at h hhead hsplit
        cases h
        have hd : d = c := by simpa using hhead
        subst hd
        refine ⟨by simpa using hsplit.symm, fun hmem => ?_⟩
        rw [String.toList_ofList] at hmem
        simpa using List.mem_takeWhile_imp hmem
  · rintro ⟨hs, hnot⟩
    have hall : ∀ d ∈ first.toList, (d != c) = true := by
      intro d hd
      rw [bne_iff_ne]
      rintro rfl
      exact hnot hd
    rw [hs, List.takeWhile_append_of_pos hall, List.dropWhile_append_of_pos hall]
    simp

/-- A text is not cut where the sign does not occur. -/
theorem cutAt_eq_none_iff {c : Char} {s : String} :
    cutAt c s = none ↔ c ∉ s.toList := by
  have hnil : s.toList.dropWhile (· != c) = [] ↔ c ∉ s.toList := by
    simp only [List.dropWhile_eq_nil_iff, bne_iff_ne]
    exact ⟨fun hall hmem => hall c hmem rfl, fun hnot d hd hdc => hnot (hdc ▸ hd)⟩
  rw [← hnil]
  unfold cutAt
  cases s.toList.dropWhile (· != c) <;> simp

/-- What is looked at is the first header of the name, trimmed, if something is left. -/
theorem authorization?_eq_some_iff {value : String} :
    authorization? r = some value
      ↔ ∃ text, (∃ h, r.headers.find? (·.name == "authorization") = some h
            ∧ h.text? = some text)
          ∧ Text.trim text = value ∧ value ≠ "" := by
  have hname : Header.nameOf? "authorization" = some "authorization" := by
    decide +kernel
  unfold authorization?
  simp only [Request.headerText?_eq hname, Option.bind_eq_some_iff,
    Option.map_eq_some_iff, nonEmpty_eq_some_iff]
  constructor
  · rintro ⟨_, ⟨text, hfirst, rfl⟩, rfl, hne⟩
    exact ⟨text, hfirst, rfl, hne⟩
  · rintro ⟨text, hfirst, rfl, hne⟩
    exact ⟨_, ⟨text, hfirst, rfl⟩, rfl, hne⟩

/-- A token is what stands behind the first blank, if the word stands before it. -/
theorem afterWord?_eq_some_iff {word value token : String} :
    afterWord? word value = some token
      ↔ ∃ first rest, value = first ++ " " ++ rest ∧ ' ' ∉ first.toList
          ∧ Scheme.sameWord first word = true
          ∧ token = Text.trim rest ∧ token ≠ "" := by
  unfold afterWord?
  rw [Option.bind_eq_bind, Option.bind_eq_some_iff]
  constructor
  · rintro ⟨⟨first, rest⟩, hcut, hword⟩
    obtain ⟨hvalue, hspace⟩ := cutAt_eq_some_iff.1 hcut
    dsimp only at hword
    split at hword
    · next hsame =>
        obtain ⟨rfl, hne⟩ := nonEmpty_eq_some_iff.1 hword
        exact ⟨first, rest, hvalue, hspace, hsame, rfl, hne⟩
    · cases hword
  · rintro ⟨first, rest, hvalue, hspace, hsame, rfl, hne⟩
    refine ⟨(first, rest), cutAt_eq_some_iff.2 ⟨hvalue, hspace⟩, ?_⟩
    dsimp only
    rw [if_pos hsame]
    exact nonEmpty_eq_some_iff.2 ⟨rfl, hne⟩

end ApiForge.Auth
