import ApiForge.Proofs.Identifier.Cuts
import ApiForge.Proofs.Identifier.Legal
/-!
Names that are made a second time.

A name without separators can still be cut between its letters, and so exporting
it again may find other tokens than it was made of. It changes nothing all the
same: a token that is cut from a name begins in upper case, and the first one
begins as the name does (`not_lower_of_mem_splitBy`). So what does not begin in
lower case is exported as it is (`capitalize_tokens_eq_self`), and names are stable
once they are made (`exported_names_stable`).
-/

namespace ApiForge.Identifier

variable {cs t : List Char} {name : String}

/-- No token of letters that do not begin in lower case begins so. -/
theorem not_lower_of_mem_splitBy
    (hhead : ∀ c, cs.head? = some c → c.isLower = false)
    (ht : t ∈ List.splitBy joined cs) :
    ∀ c, t.head? = some c → c.isLower = false := by
  have hfirst : ∀ s ∈ (List.splitBy joined cs).head?,
      ∀ c, s.head? = some c → c.isLower = false := by
    intro s hs c hc
    apply hhead
    have hjoin : s ++ (List.splitBy joined cs).tail.flatten = cs := by
      rw [← List.flatten_cons, List.cons_head?_tail hs, List.flatten_splitBy]
    rw [← hjoin, List.head?_append, hc]
    rfl
  have hchain := List.isChain_getLast_head_splitBy joined cs
  generalize List.splitBy joined cs = ts at hfirst hchain ht
  -- along the tokens: each but the first begins where a lower-case letter ends
  induction ts with
  | nil => exact absurd ht List.not_mem_nil
  | cons s ts ih =>
      rw [List.isChain_cons] at hchain
      rcases List.mem_cons.1 ht with rfl | ht
      · exact hfirst t rfl
      · refine ih (fun next hnext c hc => ?_) hchain.2 ht
        obtain ⟨_, hne, hcut⟩ := hchain.1 next hnext
        have hupper := (not_joined_iff.1 hcut).2
        rw [List.head?_eq_some_head hne] at hc
        cases hc
        exact (Text.of_isUpper hupper).2

theorem capitalizeChars_eq_self
    (h : ∀ c, cs.head? = some c → c.isLower = false) :
    capitalizeChars cs = cs := by
  cases cs with
  | nil => rfl
  | cons c rest => rw [capitalizeChars, Text.toUpper_of_not_lower (h c rfl)]

/-- Letters and digits that do not begin in lower case are exported as they
are. -/
theorem capitalize_tokens_eq_self (halnum : ∀ c ∈ cs, c.isAlphanum = true)
    (hhead : ∀ c, cs.head? = some c → c.isLower = false) :
    (tokenChars cs).flatMap capitalizeChars = cs := by
  have hnil : ∀ c, ([] : List Char).head? = some c → c.isAlphanum = false :=
    fun c hc => by cases hc
  have htokens : tokenChars cs = List.splitBy joined cs := by
    have happend := tokenChars_append halnum hnil
    have hnone : tokenChars [] = [] := rfl
    rwa [hnone, List.append_nil, List.append_nil] at happend
  have hcap : ∀ t ∈ List.splitBy joined cs, capitalizeChars t = id t :=
    fun t ht => capitalizeChars_eq_self (not_lower_of_mem_splitBy hhead ht)
  rw [htokens, List.flatMap_def, List.map_congr_left hcap, List.map_id,
    List.flatten_splitBy]

theorem exported_eq_self (halnum : ∀ c ∈ name.toList, c.isAlphanum = true)
    (hhead : ∀ c, name.toList.head? = some c → c.isLower = false) :
    exported name = name := by
  rw [exported, capitalize_tokens_eq_self halnum hhead, String.ofList_toList]

/-- An exported name is exported as it is. -/
theorem exported_of_isExported (h : IsExported name) : exported name = name := by
  refine exported_eq_self h.chars fun c hc => ?_
  obtain ⟨d, hd, hupper⟩ := h.start
  rw [hc] at hd
  cases hd
  exact (Text.of_isUpper hupper).2

/-- Exporting a name twice is exporting it once. -/
theorem exported_exported (raw : String) :
    exported (exported raw) = exported raw := by
  rcases exported_cases raw with hempty | hname | hdigit
  · rw [hempty]
    rfl
  · exact exported_of_isExported hname
  · refine exported_eq_self (alphanum_of_mem_exported raw) fun c hc => ?_
    obtain ⟨d, hd, hdigit⟩ := startsWithDigit_iff.1 hdigit
    rw [hc] at hd
    cases hd
    exact (Text.of_isDigit hdigit).2

/-- A name without letters and digits has an empty exported name. -/
theorem exported_eq_empty_iff {raw : String} :
    exported raw = "" ↔ ∀ c ∈ raw.toList, c.isAlphanum = false := by
  rw [← tokenChars_eq_nil_iff, ← String.toList_eq_nil_iff, toList_exported,
    List.flatMap_eq_nil_iff, List.eq_nil_iff_forall_not_mem]
  refine forall₂_congr fun t ht => iff_false_intro fun hnil => ?_
  obtain ⟨c, rest, hcap, -⟩ := exists_capitalize ht
  rw [hnil] at hcap
  cases hcap

/-- An exported name is usable as it is. -/
theorem typeName_of_isExported (h : IsExported name) (whenEmpty : String) :
    typeName name whenEmpty = name := by
  obtain ⟨c, hstart, hupper⟩ := h.start
  have hne : name ≠ "" := by
    rintro rfl
    cases hstart
  have hdigit : startsWithDigit name = false := by
    rw [Bool.eq_false_iff, ne_eq, startsWithDigit_iff]
    rintro ⟨d, hd, hdigit⟩
    rw [hstart] at hd
    cases hd
    rw [(Text.of_isDigit hdigit).1] at hupper
    cases hupper
  rw [typeName, exportedOr, exported_of_isExported h]
  simp [hne, hdigit]

/-- Names are stable once they are made. An exported name is exported as it is; a
type name is its own type name, and the default stays what it is where a name
yields none; and so an operation that has an identifier with a letter or a digit
is named as a type is, though the identifier is exported first. -/
theorem exported_names_stable :
    (∀ raw, exported (exported raw) = exported raw)
    ∧ (∀ raw whenEmpty, (∃ source, exported source = whenEmpty) → whenEmpty ≠ "" →
        startsWithDigit whenEmpty = false →
        typeName (typeName raw whenEmpty) whenEmpty = typeName raw whenEmpty)
    ∧ ∀ verb path id whenEmpty, (∃ c ∈ id.toList, c.isAlphanum = true) →
        operationName verb path (some id) = typeName id whenEmpty := by
  refine ⟨exported_exported, ?_, ?_⟩
  · rintro raw _ ⟨source, rfl⟩ hne hdigit
    have hdefault : IsExported (exported source) := by
      have hcases := (exported_cases source).resolve_left hne
      exact hcases.resolve_right (by simp [hdigit])
    apply typeName_of_isExported
    have hmark : IsExported "T" := by decide
    rcases exportedOr_cases hmark (exported source) raw with
      ⟨-, hname⟩ | ⟨hname, -⟩
    · rw [typeName, hname]
      exact hdefault
    · exact hname
  · rintro verb path id whenEmpty ⟨c, hmem, hc⟩
    -- such an identifier yields a name, and the default is not asked for
    have hne : exported id ≠ "" := by
      rw [ne_eq, exported_eq_empty_iff]
      intro hnone
      rw [hnone c hmem] at hc
      cases hc
    have hoperation : operationName verb path (some id)
        = typeName (exported id) "Operation" := by
      rw [operationName, Option.map_some,
        Option.filter_some_pos (by simpa using hne)]
    rw [hoperation, typeName, typeName, exportedOr, exported_exported, exportedOr]
    simp [hne]

/-- A park bench keeps its exported name. -/
theorem exported_names_stable_bench :
    (∃ source, exported source = "Schema") ∧ "Schema" ≠ ""
      ∧ startsWithDigit "Schema" = false
      ∧ typeName (typeName "2nd-parkBench" "Schema") "Schema" = "T2ndParkBench"
      ∧ (∃ c ∈ "2nd-parkBench".toList, c.isAlphanum = true)
      ∧ operationName .get "/parks" (some "2nd-parkBench") = "T2ndParkBench" := by
  have hname : typeName "2nd-parkBench" "Schema" = "T2ndParkBench" := by decide
  have hsource : ∃ source, exported source = "Schema" := ⟨"schema", by decide⟩
  have hsome : ∃ c ∈ "2nd-parkBench".toList, c.isAlphanum = true :=
    ⟨'2', List.mem_cons_self, rfl⟩
  obtain ⟨-, htype, hoperation⟩ := exported_names_stable
  refine ⟨hsource, by decide, by decide, ?_, hsome, ?_⟩
  · rw [htype _ _ hsource (by decide) (by decide), hname]
  · rw [hoperation _ _ _ "Schema" hsome, hname]

end ApiForge.Identifier
