import ApiForge.Identifier
import ApiForge.Proofs.Text.Split
import Mathlib.Data.List.SplitBy
/-!
The tokens of a raw name.

Tokens hold every letter and every digit of a name and nothing else
(`of_mem_tokenChars`, `flatten_tokenChars`), and none reaches across a character
that is neither (`tokenChars_append_cons`). So they can be found part by part, and
a name that has a single token has it in one piece, with no letter and no digit
around it (`exists_of_tokenChars_eq_singleton`).
-/

namespace ApiForge.Identifier

variable {cs t : List Char}

/-- A token is a stretch of letters and digits, at least one. -/
theorem of_mem_tokenChars (h : t ∈ tokenChars cs) :
    t ≠ [] ∧ ∀ c ∈ t, c.isAlphanum = true := by
  obtain ⟨piece, hpiece, ht⟩ := List.mem_flatMap.1 h
  refine ⟨List.ne_nil_of_mem_splitBy ht, fun c hc => ?_⟩
  have hmem : c ∈ piece := by
    rw [← List.flatten_splitBy joined piece]
    exact List.mem_flatten.2 ⟨t, ht, hc⟩
  simpa using Text.not_cut_of_mem_splitBy hpiece c hmem

/-- The tokens hold every letter and every digit. -/
theorem flatten_tokenChars (cs : List Char) :
    (tokenChars cs).flatten = cs.filter Char.isAlphanum := by
  have hpieces (pieces : List (List Char)) :
      (pieces.flatMap (List.splitBy joined)).flatten = pieces.flatten := by
    induction pieces with
    | nil => rfl
    | cons piece pieces ih => simp [ih]
  rw [tokenChars, hpieces, Text.flatten_splitBy]
  simp

/-- Without letters and digits there are no tokens. -/
theorem tokenChars_eq_nil_iff :
    tokenChars cs = [] ↔ ∀ c ∈ cs, c.isAlphanum = false := by
  have hnil : tokenChars cs = [] ↔ (tokenChars cs).flatten = [] := by
    rw [List.flatten_eq_nil_iff]
    refine ⟨fun h t ht => by simp [h] at ht, fun h => ?_⟩
    exact List.eq_nil_iff_forall_not_mem.2 fun t ht =>
      (of_mem_tokenChars ht).1 (h t ht)
  rw [hnil, flatten_tokenChars, List.filter_eq_nil_iff]
  simp

/-- No token reaches across what is neither a letter nor a digit. -/
theorem tokenChars_append_cons {c : Char} (hc : c.isAlphanum = false)
    (cs rest : List Char) :
    tokenChars (cs ++ c :: rest) = tokenChars cs ++ tokenChars rest := by
  rw [tokenChars, Text.splitBy_append_cons (by simp [hc]), List.flatMap_append]
  rfl

theorem tokenChars_cons {c : Char} (hc : c.isAlphanum = false)
    (rest : List Char) : tokenChars (c :: rest) = tokenChars rest :=
  tokenChars_append_cons hc [] rest

/-- Letters and digits in front make up tokens of their own. -/
theorem tokenChars_append {front behind : List Char}
    (hfront : ∀ c ∈ front, c.isAlphanum = true)
    (hbehind : ∀ c, behind.head? = some c → c.isAlphanum = false) :
    tokenChars (front ++ behind)
      = List.splitBy joined front ++ tokenChars behind := by
  have halone : tokenChars front = List.splitBy joined front := by
    rw [tokenChars, Text.splitBy_of_uncut fun c hc => by simp [hfront c hc],
      List.flatMap_singleton]
  cases behind with
  | nil => rw [List.append_nil, halone]; exact (List.append_nil _).symm
  | cons c rest =>
      have hc := hbehind c rfl
      rw [tokenChars_append_cons hc, tokenChars_cons hc, halone]

/-- The letters and digits in front of a list, and what stands behind them. -/
theorem exists_front (cs : List Char) :
    ∃ front behind, cs = front ++ behind
      ∧ (∀ c ∈ front, c.isAlphanum = true)
      ∧ ∀ c, behind.head? = some c → c.isAlphanum = false := by
  refine ⟨cs.takeWhile Char.isAlphanum, cs.dropWhile Char.isAlphanum,
    List.takeWhile_append_dropWhile.symm, List.all_eq_true.1 List.all_takeWhile,
    fun c hc => ?_⟩
  exact Text.of_head?_dropWhile hc

/-- Around the only token stands no letter and no digit. -/
theorem exists_of_tokenChars_eq_singleton (h : tokenChars cs = [t]) :
    ∃ before after, cs = before ++ t ++ after
      ∧ ∀ c ∈ before ++ after, c.isAlphanum = false := by
  induction cs with
  | nil => cases h
  | cons c rest ih =>
      cases hc : c.isAlphanum with
      | false =>
          rw [tokenChars_cons hc] at h
          obtain ⟨before, after, rfl, hcut⟩ := ih h
          exact ⟨c :: before, after, rfl, List.forall_mem_cons.2 ⟨hc, hcut⟩⟩
      | true =>
          -- the token begins here, and goes as far as letters and digits do
          obtain ⟨front, behind, hlist, hfront, hbehind⟩ :=
            exists_front (c :: rest)
          rw [hlist, tokenChars_append hfront hbehind,
            List.append_eq_singleton_iff] at h
          rcases h with ⟨hnil, -⟩ | ⟨hsplit, hnil⟩
          · -- but it begins with `c`
            rw [List.splitBy_eq_nil] at hnil
            subst hnil
            rw [List.nil_append] at hlist
            subst hlist
            exact absurd (hbehind c rfl) (by simp [hc])
          · have hflat := List.flatten_splitBy joined front
            rw [hsplit, List.flatten_singleton] at hflat
            subst hflat
            exact ⟨[], behind, hlist, tokenChars_eq_nil_iff.1 hnil⟩

/-- What stands around a name without letters and digits makes no token. -/
theorem tokenChars_around {before after : List Char}
    (h : ∀ c ∈ before ++ after, c.isAlphanum = false) (cs : List Char) :
    tokenChars (before ++ cs ++ after) = tokenChars cs := by
  induction before with
  | nil =>
      cases after with
      | nil => rw [List.nil_append, List.append_nil]
      | cons c rest =>
          obtain ⟨hc, hrest⟩ := List.forall_mem_cons.1 h
          rw [List.nil_append, tokenChars_append_cons hc,
            tokenChars_eq_nil_iff.2 hrest, List.append_nil]
  | cons c before ih =>
      obtain ⟨hc, hrest⟩ := List.forall_mem_cons.1 h
      rw [List.cons_append, List.cons_append, tokenChars_cons hc, ih hrest]

end ApiForge.Identifier
