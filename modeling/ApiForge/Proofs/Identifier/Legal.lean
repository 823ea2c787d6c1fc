import ApiForge.Proofs.Identifier.Words
/-!
Names that the target language takes.

What stands for a raw name in the generated source has to be an identifier there,
and no reserved word. Field names are shielded where their words are not, and so
every one that is not empty is a member name (`isMemberName_shielded`). Exported
names are written in letters and digits and begin in upper case, which leaves one
reserved word that they can be: `Self` (`isTypeName_iff`). They are not shielded
against it, and they are it just when the raw name has no other word
(`exported_eq_self_iff`).
-/

namespace ApiForge.Identifier

-- ================================================ statement vocabulary

/-- The reserved words that have a meaning. -/
def wordsInUse : List String :=
  ["as", "async", "await", "break", "const", "continue", "crate", "dyn", "else",
   "enum", "extern", "false", "fn", "for", "if", "impl", "in", "let", "loop",
   "match", "mod", "move", "mut", "pub", "ref", "return", "self", "Self",
   "static", "struct", "super", "trait", "true", "type", "unsafe", "use",
   "where", "while"]

/-- The reserved words that are kept for a meaning to come. -/
def wordsKept : List String :=
  ["abstract", "become", "box", "do", "final", "gen", "macro", "override",
   "priv", "try", "typeof", "unsized", "virtual", "yield"]

/-- A word that is no identifier as it stands. -/
def Reserved (word : String) : Prop :=
  word ∈ wordsInUse ∨ word ∈ wordsKept

instance (word : String) : Decidable (Reserved word) :=
  inferInstanceAs (Decidable (_ ∨ _))

/-- The reserved words that are no raw identifiers either. -/
def pathWords : List String := ["self", "Self", "super", "crate"]

/-- Lower-case letters, digits and underscores, with no digit in front. -/
structure IsSnake (name : String) : Prop where
  start : ∃ c, name.toList.head? = some c ∧ (c.isLower = true ∨ c = '_')
  chars : ∀ c ∈ name.toList, c.isLower = true ∨ c.isDigit = true ∨ c = '_'
  nonblank : name ≠ "_"

/-- What a field or a method may be called: a name that is not reserved, or the
raw form of one that is. -/
inductive IsMemberName : String → Prop
  | plain {name : String} (written : IsSnake name) (free : ¬ Reserved name) :
      IsMemberName name
  | raw {name : String} (written : IsSnake name) (reserved : Reserved name)
      (allowed : name ∉ pathWords) : IsMemberName ("r#" ++ name)

/-- Letters and digits, with an upper-case letter in front. -/
structure IsExported (name : String) : Prop where
  start : ∃ c, name.toList.head? = some c ∧ c.isUpper = true
  chars : ∀ c ∈ name.toList, c.isAlphanum = true

instance (name : String) : Decidable (IsExported name) :=
  decidable_of_iff' (name.toList.head?.any Char.isUpper = true
    ∧ name.toList.all Char.isAlphanum = true) <| by
  rw [Option.any_eq_true, List.all_eq_true]
  exact ⟨fun h => ⟨h.start, h.chars⟩, fun h => ⟨h.1, h.2⟩⟩

/-- What a type or a variant may be called. -/
structure IsTypeName (name : String) : Prop where
  start : ∃ c, name.toList.head? = some c ∧ c.isAlpha = true
  chars : ∀ c ∈ name.toList, c.isAlphanum = true
  free : ¬ Reserved name

instance (name : String) : Decidable (IsTypeName name) :=
  decidable_of_iff' (name.toList.head?.any Char.isAlpha = true
    ∧ name.toList.all Char.isAlphanum = true ∧ ¬ Reserved name) <| by
  rw [Option.any_eq_true, List.all_eq_true]
  exact ⟨fun h => ⟨h.start, h.chars, h.free⟩, fun h => ⟨h.1, h.2.1, h.2.2⟩⟩

/-- A raw name that has the word `self`, capitalised or not, and no other. -/
def SpellsSelf (raw : String) : Prop :=
  ∃ before word after, raw = before ++ word ++ after
    ∧ (word = "self" ∨ word = "Self")
    ∧ ∀ c ∈ (before ++ after).toList, c.isAlphanum = false

-- ======================================================== reserved words

variable {name : String}

/-- The words that names are compared with are the reserved ones. -/
theorem reserved_iff : Reserved name ↔ name ∈ keywords := by
  have hall : ∀ w ∈ wordsInUse ++ wordsKept, w ∈ keywords := by decide
  have hknown : ∀ w ∈ keywords, w ∈ wordsInUse ++ wordsKept := by decide
  rw [Reserved, ← List.mem_append]
  exact ⟨hall name, hknown name⟩

theorem mem_pathKeywords : name ∈ pathKeywords ↔ name ∈ pathWords := by
  simp only [pathKeywords, pathWords, List.mem_cons, List.not_mem_nil, or_false]
  tauto

/-- All reserved words but one are in lower case. -/
theorem lower_of_reserved (h : Reserved name) :
    name = "Self" ∨ ∀ c ∈ name.toList, c.isLower = true := by
  have hall : ∀ w ∈ wordsInUse ++ wordsKept,
      w = "Self" ∨ w.toList.all Char.isLower = true := by decide
  rw [← List.all_eq_true]
  exact hall name (List.mem_append.2 h)

/-- A name with something else than letters is not reserved. -/
theorem not_reserved {c : Char} (hmem : c ∈ name.toList)
    (hc : c.isAlpha = false) : ¬ Reserved name := by
  intro h
  rcases lower_of_reserved h with rfl | hlower
  · have halpha : ∀ c ∈ "Self".toList, c.isAlpha = true :=
      List.all_eq_true.1 rfl
    rw [halpha c hmem] at hc
    cases hc
  · rw [Text.isAlpha_iff.2 (.inr (hlower c hmem))] at hc
    cases hc

/-- An exported name is a type name unless it is the one reserved word in upper
case. -/
theorem isTypeName_iff (h : IsExported name) :
    IsTypeName name ↔ name ≠ "Self" := by
  obtain ⟨c, hstart, hupper⟩ := h.start
  constructor
  · rintro hname rfl
    exact hname.free (by decide)
  · intro hself
    refine ⟨⟨c, hstart, Text.isAlpha_iff.2 (.inl hupper)⟩, h.chars, ?_⟩
    intro hreserved
    have hlower := (lower_of_reserved hreserved).resolve_left hself c
      (List.mem_of_head? hstart)
    rw [(Text.of_isUpper hupper).2] at hlower
    cases hlower

-- ======================================================== exported names

variable {cs t : List Char} {raw : String}

theorem toList_exported (raw : String) : (exported raw).toList
    = (tokenChars raw.toList).flatMap capitalizeChars :=
  String.toList_ofList

/-- A capitalised token has an upper-case letter or a digit in front, and letters
and digits behind it. -/
theorem exists_capitalize (h : t ∈ tokenChars cs) :
    ∃ c rest, capitalizeChars t = c :: rest
      ∧ (c.isUpper = true ∨ c.isDigit = true)
      ∧ ∀ d ∈ rest, d.isAlphanum = true := by
  obtain ⟨hne, halnum⟩ := of_mem_tokenChars h
  cases t with
  | nil => exact absurd rfl hne
  | cons c rest =>
      obtain ⟨hc, hrest⟩ := List.forall_mem_cons.1 halnum
      exact ⟨c.toUpper, rest, rfl, Text.upper_or_digit hc, hrest⟩

/-- An exported name consists of letters and digits. -/
theorem alphanum_of_mem_exported (raw : String) :
    ∀ c ∈ (exported raw).toList, c.isAlphanum = true := by
  intro c hc
  rw [toList_exported] at hc
  obtain ⟨t, ht, hc⟩ := List.mem_flatMap.1 hc
  obtain ⟨first, rest, hcap, hfirst, hrest⟩ := exists_capitalize ht
  rw [hcap] at hc
  rcases List.mem_cons.1 hc with rfl | hc
  · rcases hfirst with hupper | hdigit
    · exact (Text.of_isUpper hupper).1
    · exact Text.isAlphanum_iff.2 (.inr hdigit)
  · exact hrest c hc

/-- Unless it is empty, a name is exported with an upper-case letter or a digit in
front. -/
theorem exported_cases (raw : String) :
    exported raw = "" ∨ IsExported (exported raw)
      ∨ startsWithDigit (exported raw) = true := by
  cases htokens : tokenChars raw.toList with
  | nil =>
      left
      rw [exported, htokens]
      rfl
  | cons t ts =>
      right
      have hmem : t ∈ tokenChars raw.toList := by simp [htokens]
      obtain ⟨c, rest, hcap, hc, -⟩ := exists_capitalize hmem
      have hlist : (exported raw).toList
          = c :: (rest ++ ts.flatMap capitalizeChars) := by
        rw [toList_exported, htokens, List.flatMap_cons, hcap, List.cons_append]
      refine hc.imp (fun hupper => ?_) fun hdigit => ?_
      · exact ⟨⟨c, by rw [hlist, List.head?_cons], hupper⟩,
          alphanum_of_mem_exported raw⟩
      · rw [startsWithDigit, hlist]
        exact hdigit

/-- Tokens that make `Self` are a single one, in which only the first letter may
have been in either case. -/
theorem tokens_of_self
    (h : (tokenChars cs).flatMap capitalizeChars = ['S', 'e', 'l', 'f']) :
    ∃ c, tokenChars cs = [[c, 'e', 'l', 'f']] ∧ (c = 'S' ∨ c = 's') := by
  cases htokens : tokenChars cs with
  | nil => rw [htokens] at h; cases h
  | cons t ts =>
      have hmem : t ∈ tokenChars cs := by simp [htokens]
      cases t with
      | nil => exact absurd rfl (of_mem_tokenChars hmem).1
      | cons c rest =>
          rw [htokens, List.flatMap_cons, capitalizeChars, List.cons_append] at h
          obtain ⟨hc, hrest⟩ := List.cons.inj h
          cases ts with
          | nil =>
              rw [List.flatMap_nil, List.append_nil] at hrest
              subst hrest
              exact ⟨c, rfl, Text.eq_or_eq_toLower hc⟩
          | cons next ts =>
              -- a second token would have a letter in upper case, or a digit
              have hnext : next ∈ tokenChars cs := by simp [htokens]
              obtain ⟨d, behind, hcap, hd, -⟩ := exists_capitalize hnext
              have hmem : d ∈ ['e', 'l', 'f'] := by
                rw [← hrest, List.flatMap_cons, hcap]
                simp
              have hlower : ∀ d ∈ ['e', 'l', 'f'],
                  ¬ (d.isUpper = true ∨ d.isDigit = true) := by simp
              exact absurd hd (hlower d hmem)

/-- The name that is exported as `Self` has no other word. -/
theorem exported_eq_self_iff : exported raw = "Self" ↔ SpellsSelf raw := by
  constructor
  · intro h
    have hlist : (tokenChars raw.toList).flatMap capitalizeChars
        = ['S', 'e', 'l', 'f'] := by
      rw [← toList_exported, h]
      rfl
    obtain ⟨c, htoken, hc⟩ := tokens_of_self hlist
    obtain ⟨before, after, hraw, hcut⟩ := exists_of_tokenChars_eq_singleton htoken
    refine ⟨String.ofList before, String.ofList [c, 'e', 'l', 'f'],
      String.ofList after, ?_, ?_, ?_⟩
    · rw [← String.toList_inj, hraw]
      simp
    · rcases hc with rfl | rfl
      · exact .inr rfl
      · exact .inl rfl
    · simpa using hcut
  · rintro ⟨before, word, after, rfl, hword, hcut⟩
    rw [String.toList_append] at hcut
    rw [exported, String.toList_append, String.toList_append,
      tokenChars_around hcut]
    rcases hword with rfl | rfl <;> rfl

-- ============================================================ type names

variable {mark whenEmpty : String}

/-- The test for a digit in front looks at the first sign. -/
theorem startsWithDigit_iff :
    startsWithDigit name = true ↔ ∃ c, name.toList.head? = some c
      ∧ c.isDigit = true := by
  rw [startsWithDigit]
  cases name.toList <;> simp

/-- A mark in front is an upper-case letter in front. -/
theorem IsExported.append (h : IsExported mark)
    (hname : ∀ c ∈ name.toList, c.isAlphanum = true) :
    IsExported (mark ++ name) := by
  obtain ⟨c, hstart, hupper⟩ := h.start
  refine ⟨⟨c, ?_, hupper⟩, fun d hd => ?_⟩
  · rw [String.toList_append, List.head?_append, hstart]
    rfl
  · rw [String.toList_append, List.mem_append] at hd
    exact hd.elim (h.chars d) (hname d)

/-- A digit is no letter of `Self`. -/
theorem ne_self_of_isDigit {c : Char} (hmem : c ∈ name.toList)
    (hc : c.isDigit = true) : name ≠ "Self" := by
  rintro rfl
  have hnone : ∀ c ∈ "Self".toList, c.isDigit = false := by simp
  rw [hnone c hmem] at hc
  cases hc

/-- A name is made usable with what stands for the empty one, or it is an exported
name, which is `Self` if it was. -/
theorem exportedOr_cases (hmark : IsExported mark) (whenEmpty raw : String) :
    exported raw = "" ∧ exportedOr mark whenEmpty raw = whenEmpty
      ∨ IsExported (exportedOr mark whenEmpty raw)
        ∧ (exportedOr mark whenEmpty raw = "Self" ↔ exported raw = "Self") := by
  by_cases hempty : exported raw = ""
  · left
    refine ⟨hempty, ?_⟩
    rw [exportedOr, hempty]
    rfl
  right
  -- a mark is put in front of a digit, and then the name is not `Self`
  by_cases hdigit : startsWithDigit (exported raw) = true
  · have hname : exportedOr mark whenEmpty raw = mark ++ exported raw := by
      rw [exportedOr]
      simp [hempty, hdigit]
    obtain ⟨c, hstart, hc⟩ := startsWithDigit_iff.1 hdigit
    have hmem := List.mem_of_head? hstart
    have hbehind : c ∈ (mark ++ exported raw).toList := by
      rw [String.toList_append]
      exact List.mem_append_right _ hmem
    rw [hname]
    exact ⟨hmark.append (alphanum_of_mem_exported raw),
      iff_of_false (ne_self_of_isDigit hbehind hc) (ne_self_of_isDigit hmem hc)⟩
  · have hname : exportedOr mark whenEmpty raw = exported raw := by
      rw [exportedOr]
      simp [hempty, hdigit]
    rw [hname]
    have hcases := (exported_cases raw).resolve_left hempty
    exact ⟨hcases.resolve_right hdigit, Iff.rfl⟩

/-- A name that is made usable is a type name unless it is `Self`. -/
theorem isTypeName_exportedOr (hmark : IsExported mark)
    (hempty : IsTypeName whenEmpty) (raw : String) :
    (IsTypeName (exportedOr mark whenEmpty raw) ↔ ¬ SpellsSelf raw)
      ∧ (SpellsSelf raw → exportedOr mark whenEmpty raw = "Self") := by
  rw [← exported_eq_self_iff]
  rcases exportedOr_cases hmark whenEmpty raw with ⟨hnone, hname⟩ | ⟨hname, hself⟩
  · have hself : exported raw ≠ "Self" := by
      rw [hnone]
      decide
    rw [hname]
    exact ⟨iff_of_true hempty hself, fun h => absurd h hself⟩
  · rw [isTypeName_iff hname, ne_eq, hself]
    exact ⟨Iff.rfl, id⟩

/-- The names of types and variants are legal for all raw names but those that
have the one word `self`, for which they are the reserved word `Self`. -/
theorem typeName_legal_iff (hempty : IsTypeName whenEmpty) (raw : String) :
    (IsTypeName (typeName raw whenEmpty) ↔ ¬ SpellsSelf raw)
      ∧ (IsTypeName (variantName raw) ↔ ¬ SpellsSelf raw)
      ∧ (SpellsSelf raw → typeName raw whenEmpty = "Self"
        ∧ variantName raw = "Self") := by
  have hT : IsExported "T" := by decide
  have hV : IsExported "V" := by decide
  have hnone : IsTypeName "Empty" := by decide
  obtain ⟨htype, hself⟩ := isTypeName_exportedOr hT hempty raw
  obtain ⟨hvariant, hself'⟩ := isTypeName_exportedOr hV hnone raw
  exact ⟨htype, hvariant, fun h => ⟨hself h, hself' h⟩⟩

/-- A component whose name begins with a digit gets a legal type name. -/
theorem typeName_legal_second_floor :
    IsTypeName "Type" ∧ ¬ SpellsSelf "2nd floor"
      ∧ IsTypeName (typeName "2nd floor" "Type")
      ∧ typeName "2nd floor" "Type" = "T2ndFloor" := by
  have htype : IsTypeName "Type" := by decide
  have hself : ¬ SpellsSelf "2nd floor" := by
    rw [← exported_eq_self_iff]
    decide
  exact ⟨htype, hself, (typeName_legal_iff htype _).1.2 hself, by decide⟩

/-- A component or a literal `self` is named with a reserved word. -/
theorem self_is_no_type_name :
    IsTypeName "Type" ∧ ¬ IsTypeName (typeName "self" "Type")
      ∧ ¬ IsTypeName (variantName "self") := by
  decide

-- ========================================================== member names

theorem words_eq_nil_iff :
    words raw = [] ↔ ∀ c ∈ raw.toList, c.isAlphanum = false := by
  rw [words, List.map_eq_nil_iff, tokenChars_eq_nil_iff]

variable {ws : List String}

/-- Joined words have a letter or a digit in front. -/
theorem exists_head_join (h : ∀ w ∈ ws, IsWord w) (hne : ws ≠ []) :
    ∃ c, ("_".intercalate ws).toList.head? = some c
      ∧ (c.isLower = true ∨ c.isDigit = true) := by
  have hchars {c : Char} (hc : c ∈ ("_".intercalate ws).toList) :
      c.isLower = true ∨ c.isDigit = true ∨ c = '_' := snake_of_mem_join h hc
  cases hlist : ("_".intercalate ws).toList with
  | nil => exact absurd (String.toList_eq_nil_iff.1 hlist) (join_ne_empty h hne)
  | cons c rest =>
      rw [hlist] at hchars
      refine ⟨c, rfl, ?_⟩
      rcases hchars (List.mem_cons_self ..) with hlower | hdigit | rfl
      · exact .inl hlower
      · exact .inr hdigit
      · have hsplit : ("_".intercalate ws).toList = [] ++ '_' :: rest := hlist
        exact absurd rfl (underscore_within h hsplit).1

/-- A name in lower case that begins with a letter is in snake case. -/
theorem isSnake_of_lower {c : Char} (hstart : name.toList.head? = some c)
    (hlower : c.isLower = true)
    (hchars : ∀ c ∈ name.toList, c.isLower = true ∨ c.isDigit = true ∨ c = '_') :
    IsSnake name := by
  refine ⟨⟨c, hstart, .inl hlower⟩, hchars, ?_⟩
  rintro rfl
  cases hstart
  exact absurd hlower (by decide)

/-- A path word gets an underscore behind it. -/
theorem isMemberName_behind (hmem : name ∈ pathWords) (hself : name ≠ "Self") :
    IsMemberName (name ++ "_") := by
  have hunderscore : '_' ∈ (name ++ "_").toList := by
    rw [String.toList_append]
    exact List.mem_append_right _ (List.mem_singleton_self _)
  refine .plain ?_ (not_reserved hunderscore (by decide))
  simp only [pathWords, List.mem_cons, List.not_mem_nil, or_false] at hmem
  rcases hmem with rfl | rfl | rfl | rfl
  · exact isSnake_of_lower rfl (c := 's') (by decide) (by simp)
  · exact absurd rfl hself
  · exact isSnake_of_lower rfl (c := 's') (by decide) (by simp)
  · exact isSnake_of_lower rfl (c := 'c') (by decide) (by simp)

/-- A digit gets an underscore in front of it. -/
theorem isMemberName_front (hne : name ≠ "")
    (hchars : ∀ c ∈ name.toList, c.isLower = true ∨ c.isDigit = true ∨ c = '_') :
    IsMemberName ("_" ++ name) := by
  have hlist : ("_" ++ name).toList = '_' :: name.toList := String.toList_append
  have hunderscore : '_' ∈ ("_" ++ name).toList := by
    rw [hlist]
    exact List.mem_cons_self ..
  refine .plain ⟨⟨'_', by rw [hlist, List.head?_cons], .inr rfl⟩, ?_, ?_⟩
    (not_reserved hunderscore (by decide))
  · rw [hlist]
    exact List.forall_mem_cons.2 ⟨.inr (.inr rfl), hchars⟩
  · intro hblank
    rw [← String.toList_inj, hlist] at hblank
    exact hne (String.toList_eq_nil_iff.1 (List.cons.inj hblank).2)

/-- The shields make a member name of every name in lower-case letters, digits and
underscores that has no underscore in front. -/
theorem isMemberName_shielded {c : Char} (hstart : name.toList.head? = some c)
    (hc : c.isLower = true ∨ c.isDigit = true)
    (hchars : ∀ c ∈ name.toList, c.isLower = true ∨ c.isDigit = true ∨ c = '_') :
    IsMemberName (shielded name) := by
  have hself : name ≠ "Self" := by
    rintro rfl
    exact absurd (hchars 'S' (by decide)) (by decide)
  rw [shielded, List.contains_eq_mem, List.contains_eq_mem]
  by_cases hpath : name ∈ pathKeywords
  · rw [if_pos (decide_eq_true hpath)]
    exact isMemberName_behind (mem_pathKeywords.1 hpath) hself
  rw [if_neg (by simpa using hpath)]
  by_cases hkeyword : name ∈ keywords
  · -- another reserved word is written raw
    rw [if_pos (decide_eq_true hkeyword)]
    have hreserved := reserved_iff.2 hkeyword
    have hlower := (lower_of_reserved hreserved).resolve_left hself c
      (List.mem_of_head? hstart)
    exact .raw (isSnake_of_lower hstart hlower hchars) hreserved
      (mt mem_pathKeywords.2 hpath)
  rw [if_neg (by simpa using hkeyword)]
  -- what is left begins with a digit, or needs no shield
  by_cases hdigit : startsWithDigit name = true
  · rw [if_pos hdigit]
    refine isMemberName_front ?_ hchars
    rintro rfl
    cases hstart
  · rw [if_neg hdigit]
    have hlower := hc.resolve_right fun h =>
      hdigit (startsWithDigit_iff.2 ⟨c, hstart, h⟩)
    exact .plain (isSnake_of_lower hstart hlower hchars) (mt reserved_iff.1 hkeyword)

/-- A raw name without letters and digits has no field name. -/
theorem fieldName_eq_empty_iff :
    fieldName raw = "" ↔ ∀ c ∈ raw.toList, c.isAlphanum = false := by
  rw [← words_eq_nil_iff, fieldName_eq]
  exact spell_eq_empty_iff fun w => isWord_of_mem_words

/-- Any other has one that is legal. -/
theorem isMemberName_fieldName (h : fieldName raw ≠ "") :
    IsMemberName (fieldName raw) := by
  have hwords : ∀ w ∈ words raw, IsWord w := fun w => isWord_of_mem_words
  have hne : words raw ≠ [] := by
    rwa [ne_eq, ← spell_eq_empty_iff hwords, ← fieldName_eq]
  obtain ⟨c, hstart, hc⟩ := exists_head_join hwords hne
  exact isMemberName_shielded hstart hc fun c => snake_of_mem_join hwords

-- ======================================================= operation names

theorem isExported_capitalize_key (verb : Verb) :
    IsExported (capitalize verb.key) := by
  cases verb <;> decide

/-- An operation is named with letters and digits behind an upper-case letter,
whether it is named for its identifier or for its path. -/
theorem isExported_operationName (verb : Verb) (path : String)
    (operationId : Option String) :
    IsExported (operationName verb path operationId) := by
  rw [operationName]
  split
  · rename_i name _
    have hT : IsExported "T" := by decide
    rcases exportedOr_cases hT "Operation" name with ⟨-, hname⟩ | ⟨hname, -⟩
    · rw [typeName, hname]
      decide
    · exact hname
  · apply (isExported_capitalize_key verb).append
    intro c hc
    rw [String.toList_join] at hc
    obtain ⟨word, hword, hc⟩ := List.mem_flatMap.1 hc
    obtain ⟨segment, -, rfl⟩ := List.mem_map.1 hword
    exact alphanum_of_mem_exported segment c hc

/-- A field name is empty just for a raw name without letters and digits, and else
it is legal. Operations are named with letters and digits behind an upper-case
letter, and what their methods are called is legal too. -/
theorem member_names_legal :
    (∀ raw, (fieldName raw = "" ↔ ∀ c ∈ raw.toList, c.isAlphanum = false)
      ∧ (fieldName raw = "" ∨ IsMemberName (fieldName raw)))
    ∧ ∀ verb path operationId, IsExported (operationName verb path operationId)
      ∧ IsMemberName (fieldName (operationName verb path operationId)) := by
  refine ⟨fun raw => ⟨fieldName_eq_empty_iff, ?_⟩, fun verb path id => ?_⟩
  · by_cases hempty : fieldName raw = ""
    · exact .inl hempty
    · exact .inr (isMemberName_fieldName hempty)
  · have hname := isExported_operationName verb path id
    refine ⟨hname, isMemberName_fieldName fun hempty => ?_⟩
    -- the letter in front does not get lost
    obtain ⟨c, hstart, hupper⟩ := hname.start
    have hnone := fieldName_eq_empty_iff.1 hempty c (List.mem_of_head? hstart)
    rw [(Text.of_isUpper hupper).1] at hnone
    cases hnone

end ApiForge.Identifier
