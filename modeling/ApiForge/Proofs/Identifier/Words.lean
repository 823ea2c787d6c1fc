import ApiForge.Proofs.Identifier.Tokens
import ApiForge.Proofs.Text.Ascii
import Mathlib.Data.List.Nodup
/-!
Field names spell their words.

The words of a raw name are its tokens in lower case, and its field name joins
them and shields the result where it would be no identifier. Nothing else of the
name is left, and nothing of the words is lost: a shield begins or ends with a
character with which no joined words do (`bare_shielded`), and between words stands
a character that no word has. So the words can be read from what they spell
(`wordsOf_spell`), and two names have the same field name just when they have the
same words.
-/

namespace ApiForge.Identifier

open Text (splitBy)

-- ================================================ statement vocabulary

/-- The words of a raw name. -/
def words (raw : String) : List String :=
  (tokenChars raw.toList).map fun t => String.ofList (t.map Char.toLower)

/-- Lower-case letters and digits, at least one. -/
def IsWord (w : String) : Prop :=
  w ≠ "" ∧ ∀ c ∈ w.toList, c.isLower = true ∨ c.isDigit = true

/-- A name in the form in which it may be used. -/
def shielded (name : String) : String :=
  if pathKeywords.contains name then name ++ "_"
  else if keywords.contains name then "r#" ++ name
  else if startsWithDigit name then "_" ++ name
  else name

/-- The field name that words make. -/
def spell (ws : List String) : String :=
  shielded ("_".intercalate ws)

theorem fieldName_eq (raw : String) : fieldName raw = spell (words raw) := rfl

-- ================================================================== words

/-- The words of a name are not empty, and consist of lower-case letters and digits. -/
theorem isWord_of_mem_words {raw w : String} (h : w ∈ words raw) : IsWord w := by
  obtain ⟨t, ht, rfl⟩ := List.mem_map.1 h
  obtain ⟨hne, halnum⟩ := of_mem_tokenChars ht
  refine ⟨fun hempty => hne ?_, fun c hc => ?_⟩
  · simpa using hempty
  · rw [String.toList_ofList] at hc
    obtain ⟨letter, hletter, rfl⟩ := List.mem_map.1 hc
    exact Text.lower_or_digit (halnum letter hletter)

variable {ws : List String}

theorem not_underscore_of_isWord {w : String} (h : IsWord w) :
    '_' ∉ w.toList := by
  intro hmem
  rcases h.2 _ hmem with h | h <;> exact absurd h (by decide)

theorem toList_join (ws : List String) :
    ("_".intercalate ws).toList = ['_'].intercalate (ws.map String.toList) :=
  String.toList_intercalate

/-- The words between which the underscores stand are the parts of the whole. -/
theorem splitBy_join (h : ∀ w ∈ ws, IsWord w) (hne : ws ≠ []) :
    splitBy (· == '_') ("_".intercalate ws).toList = ws.map String.toList := by
  rw [toList_join]
  refine Text.splitBy_intercalate (by simpa using hne) fun piece hpiece => ?_
  obtain ⟨w, hw, rfl⟩ := List.mem_map.1 hpiece
  exact not_underscore_of_isWord (h w hw)

/-- Joined words consist of lower-case letters, digits and underscores. -/
theorem snake_of_mem_join (h : ∀ w ∈ ws, IsWord w) {c : Char}
    (hc : c ∈ ("_".intercalate ws).toList) :
    c.isLower = true ∨ c.isDigit = true ∨ c = '_' := by
  rw [toList_join] at hc
  rcases Text.mem_intercalate hc with rfl | ⟨piece, hpiece, hc⟩
  · exact .inr (.inr rfl)
  · obtain ⟨w, hw, rfl⟩ := List.mem_map.1 hpiece
    exact ((h w hw).2 c hc).imp_right .inl

theorem number_sign_not_mem_join (h : ∀ w ∈ ws, IsWord w) :
    '#' ∉ ("_".intercalate ws).toList := by
  intro hmem
  exact absurd (snake_of_mem_join h hmem) (by decide)

/-- Words that are joined are more than nothing. -/
theorem join_ne_empty (h : ∀ w ∈ ws, IsWord w) (hne : ws ≠ []) :
    "_".intercalate ws ≠ "" := by
  intro hempty
  have hparts := splitBy_join h hne
  have hmem : [] ∈ ws.map String.toList := by
    rw [← hparts, hempty]
    exact List.mem_singleton_self []
  obtain ⟨w, hw, hnil⟩ := List.mem_map.1 hmem
  exact (h w hw).1 (String.toList_eq_nil_iff.1 hnil)

/-- Joined words neither begin nor end with an underscore. -/
theorem underscore_within (h : ∀ w ∈ ws, IsWord w) {front back : List Char}
    (hsplit : ("_".intercalate ws).toList = front ++ '_' :: back) :
    front ≠ [] ∧ back ≠ [] := by
  have hne : ws ≠ [] := by
    rintro rfl
    exact List.append_ne_nil_of_right_ne_nil front (List.cons_ne_nil _ back)
      hsplit.symm
  have hparts := splitBy_join h hne
  rw [hsplit, Text.splitBy_append_cons rfl] at hparts
  have hpart : [] ∉ splitBy (· == '_') front ++ splitBy (· == '_') back := by
    rw [hparts]
    intro hmem
    obtain ⟨w, hw, hempty⟩ := List.mem_map.1 hmem
    exact (h w hw).1 (String.toList_eq_nil_iff.1 hempty)
  constructor <;> rintro rfl <;> exact hpart (by simp [splitBy])

-- ================================================================ shields

/-- A name without its shield. -/
def bare : List Char → List Char
  | 'r' :: '#' :: rest => rest
  | '_' :: rest => rest
  | cs => if cs.getLast? = some '_' then cs.dropLast else cs

/-- Without its shields a spelled name is its words again. -/
theorem bare_shielded (h : ∀ w ∈ ws, IsWord w) :
    bare (spell ws).toList = ("_".intercalate ws).toList := by
  have hsign := number_sign_not_mem_join h
  have hwithin {front back : List Char}
      (hsplit : ("_".intercalate ws).toList = front ++ '_' :: back) :
      front ≠ [] ∧ back ≠ [] := underscore_within h hsplit
  -- the shields in the order in which they are tried: behind, raw, in front, none
  rw [spell, shielded]
  generalize "_".intercalate ws = name at hsign hwithin
  split
  · rename_i hpath
    have hmem := List.contains_iff_mem.1 hpath
    simp only [pathKeywords, List.mem_cons, List.not_mem_nil, or_false] at hmem
    rcases hmem with rfl | rfl | rfl | rfl <;> decide
  split
  · rw [String.toList_append]
    rfl
  split
  · rw [String.toList_append]
    rfl
  · -- the name is not shielded, and does not look as if it were
    unfold bare
    split
    · rename_i rest hname
      rw [hname] at hsign
      exact absurd (List.mem_cons_of_mem _ (List.mem_cons_self ..)) hsign
    · rename_i rest hname
      rw [← List.nil_append ('_' :: rest)] at hname
      exact absurd rfl (hwithin hname).1
    · rw [if_neg]
      intro hlast
      exact (hwithin (List.dropLast_append_getLast? _ hlast).symm).2 rfl

/-- The characters that field names are written in. -/
def fieldChar (c : Char) : Bool :=
  c.isLower || c.isDigit || c == '_' || c == '#'

/-- A spelled name consists of signs that fields may have. -/
theorem fieldChar_of_mem_spell (h : ∀ w ∈ ws, IsWord w) {c : Char}
    (hc : c ∈ (spell ws).toList) : fieldChar c = true := by
  have hjoin (hc : c ∈ ("_".intercalate ws).toList) : fieldChar c = true := by
    rcases snake_of_mem_join h hc with h | h | rfl
    · simp [fieldChar, h]
    · simp [fieldChar, h]
    · rfl
  have hunderscore : ∀ c ∈ "_".toList, fieldChar c = true :=
    List.all_eq_true.1 rfl
  have hraw : ∀ c ∈ "r#".toList, fieldChar c = true :=
    List.all_eq_true.1 rfl
  rw [spell, shielded] at hc
  -- a shield adds an underscore or the mark of raw names
  split at hc
  · rw [String.toList_append, List.mem_append] at hc
    exact hc.elim hjoin (hunderscore c)
  split at hc
  · rw [String.toList_append, List.mem_append] at hc
    exact hc.elim (hraw c) hjoin
  split at hc
  · rw [String.toList_append, List.mem_append] at hc
    exact hc.elim (hunderscore c) hjoin
  · exact hjoin hc

/-- The words that a field name spells. -/
def wordsOf (name : String) : List (List Char) :=
  (splitBy (· == '_') (bare name.toList)).filter fun w => !w.isEmpty

/-- The words of a spelled name are read back. -/
theorem wordsOf_spell (h : ∀ w ∈ ws, IsWord w) :
    wordsOf (spell ws) = ws.map String.toList := by
  rw [wordsOf, bare_shielded h]
  by_cases hne : ws = []
  · subst hne
    rfl
  · rw [splitBy_join h hne]
    refine List.filter_eq_self.2 fun piece hpiece => ?_
    obtain ⟨w, hw, rfl⟩ := List.mem_map.1 hpiece
    have hword := mt String.toList_eq_nil_iff.1 (h w hw).1
    simpa using hword

/-- Words that spell the same are the same. -/
theorem spell_injective {ws ws' : List String} (h : ∀ w ∈ ws, IsWord w)
    (h' : ∀ w ∈ ws', IsWord w) (heq : spell ws = spell ws') : ws = ws' := by
  have hwords := congrArg wordsOf heq
  rw [wordsOf_spell h, wordsOf_spell h'] at hwords
  exact List.map_injective_iff.2 (fun _ _ => String.toList_inj.1) hwords

/-- What is spelled with words is different just when the words are. -/
theorem nodup_map_spell {ws : List (List String)}
    (h : ∀ l ∈ ws, ∀ w ∈ l, IsWord w) : (ws.map spell).Nodup ↔ ws.Nodup :=
  ⟨List.Nodup.of_map spell, List.Nodup.map_on fun l hl l' hl' =>
    spell_injective (h l hl) (h l' hl')⟩

/-- Only no words at all spell nothing. -/
theorem spell_eq_empty_iff (h : ∀ w ∈ ws, IsWord w) :
    spell ws = "" ↔ ws = [] := by
  constructor
  · intro hempty
    exact spell_injective h (fun w hw => absurd hw List.not_mem_nil) hempty
  · rintro rfl
    rfl

end ApiForge.Identifier
