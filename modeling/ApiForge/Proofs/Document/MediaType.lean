import ApiForge.Document.Basic
import ApiForge.Proofs.Table
import ApiForge.Proofs.Text.Trim
/-!
Which form of a body is its JSON form.

A key of a content table names a media type, with parameters behind a semicolon
(`MediaType.named`). A body has a JSON form if one of its keys names the type of
JSON or a type with the suffix of JSON, and `Content.Selects` says which one that
is. `Content.json?` does not read keys in this way: it looks at how their text
begins and ends, and selects by that (`selects_by_text`). The two agree where the
text of each key shows the media type that it names, and a key whose text does not
spoils the choice in some table, however plain the other keys are (`json_form`).
-/

namespace ApiForge

-- ================================================ statement vocabulary

namespace MediaType

/-- The media type of JSON. -/
def jsonName : String := "application/json"

/-- The suffix of media types that are written in JSON. -/
def jsonSuffix : String := "+json"

/-- The media type that a key names: what stands in front of its first semicolon,
without the blanks around it. -/
def named (key : String) : String :=
  Text.trim (String.ofList (key.toList.takeWhile (· != ';')))

/-- A key that names the media type of JSON. -/
def IsJson (key : String) : Prop :=
  named key = jsonName

/-- A key that names a media type with the suffix of JSON. -/
def IsSuffixed (key : String) : Prop :=
  jsonSuffix.toList <:+ (named key).toList

/-- A key whose text begins with the media type of JSON. -/
def Begins (key : String) : Prop :=
  jsonName.toList <+: key.toList

/-- A key whose text ends with the suffix of JSON. -/
def Ends (key : String) : Prop :=
  jsonSuffix.toList <:+ key.toList

/-- A key whose text shows its media type: it begins with that of JSON just if it
names it, and of the other keys it ends with the suffix just if it names a type
that does. -/
structure Plain (key : String) : Prop where
  json : Begins key ↔ IsJson key
  suffix : ¬ IsJson key → (Ends key ↔ IsSuffixed key)

instance (key : String) : Decidable (IsJson key) :=
  inferInstanceAs (Decidable (_ = _))

instance (key : String) : Decidable (IsSuffixed key) :=
  inferInstanceAs (Decidable (_ <:+ _))

instance (key : String) : Decidable (Begins key) :=
  inferInstanceAs (Decidable (_ <+: _))

instance (key : String) : Decidable (Ends key) :=
  inferInstanceAs (Decidable (_ <:+ _))

instance (key : String) : Decidable (Plain key) :=
  decidable_of_iff' ((Begins key ↔ IsJson key)
    ∧ (¬ IsJson key → (Ends key ↔ IsSuffixed key)))
    ⟨fun h => ⟨h.json, h.suffix⟩, fun h => ⟨h.1, h.2⟩⟩

end MediaType

namespace Content

variable (json suffixed : String → Prop) (content : Content)

/-- What is preferred where some keys are those of JSON and some have its suffix:
the key without parameters, else one of JSON, else the first with the suffix. -/
inductive Prefers : String × MediaType → Prop
  | exact {e : String × MediaType} (mem : e ∈ content)
      (name : e.1 = MediaType.jsonName) : Prefers e
  | parameters {e : String × MediaType} (mem : e ∈ content) (is : json e.1)
      (noExact : ∀ f ∈ content, f.1 ≠ MediaType.jsonName) : Prefers e
  | suffix {e : String × MediaType} (mem : e ∈ content) (has : suffixed e.1)
      (noJson : ∀ f ∈ content, ¬ json f.1)
      (first : ∀ f ∈ content, suffixed f.1 → e.1 ≤ f.1) : Prefers e

/-- The JSON form is there just when a key is one of JSON or has its suffix, and it
is one that is preferred. -/
structure Selects : Prop where
  found : content.json?.isSome ↔ ∃ e ∈ content, json e.1 ∨ suffixed e.1
  preferred : ∀ m, content.json? = some m →
    ∃ e, Prefers json suffixed content e ∧ e.2 = m

/-- The JSON form is selected by the media types that the keys name. -/
def SelectsByType : Prop :=
  Selects MediaType.IsJson MediaType.IsSuffixed content

/-- The JSON form is selected by the text of the keys. -/
def SelectsByText : Prop :=
  Selects MediaType.Begins MediaType.Ends content

end Content

-- ============================================================== selecting

namespace Content

open MediaType (Begins Ends IsJson IsSuffixed Plain jsonName)

variable {content : Content}

theorem startsWith_iff {key : String} :
    key.startsWith "application/json" = true ↔ Begins key :=
  String.startsWith_string_iff

/-- The second test of a key is for the end of its text. -/
theorem endsWith_iff {key : String} :
    key.endsWith "+json" = true ↔ Ends key := by
  have h : key.toSlice.endsWith "+json" = true
      ↔ "+json".toList <:+ key.toSlice.copy.toList :=
    String.Slice.endsWith_string_iff
  rwa [String.copy_toSlice] at h

theorem begins_jsonName : Begins jsonName := by
  decide

theorem isJson_jsonName : IsJson jsonName := by
  decide

/-- In a table in order, what is found first has the first key. -/
theorem le_of_find? (hsorted : Table.Sorted content) {p : String → Bool}
    {e : String × MediaType} (h : content.find? (fun e => p e.1) = some e) :
    ∀ f ∈ content, p f.1 = true → e.1 ≤ f.1 := by
  obtain ⟨-, before, after, rfl, hbefore⟩ := List.find?_eq_some_iff_append.1 h
  intro f hf hp
  rcases List.mem_append.1 hf with hf | hf
  · exact absurd hp (by simpa using hbefore f hf)
  · rcases List.mem_cons.1 hf with rfl | hf
    · exact String.le_refl _
    · have hlt := (List.pairwise_cons.1 (List.pairwise_append.1 hsorted).2.1).1 f hf
      exact String.not_lt.1 fun hgt => String.lt_irrefl _ (String.lt_trans hlt hgt)

/-- The JSON form is looked for in three ways, one after the other. -/
theorem json?_cases (content : Content) :
    (∃ e ∈ content, e.1 = jsonName ∧ content.json? = some e.2)
      ∨ (∀ f ∈ content, f.1 ≠ jsonName)
        ∧ ((∃ e, content.find? (fun e => e.1.startsWith "application/json") = some e
              ∧ content.json? = some e.2)
          ∨ (∀ f ∈ content, ¬ Begins f.1)
            ∧ content.json?
              = (content.find? fun e => e.1.endsWith "+json").map (·.2)) := by
  unfold json?
  cases hexact : Table.get? "application/json" content with
  | some m => exact .inl ⟨_, Table.mem_of_get? hexact, rfl, rfl⟩
  | none =>
      right
      refine ⟨fun f hf hname => ?_, ?_⟩
      · exact Table.get?_eq_none_iff.1 hexact (List.mem_map.2 ⟨f, hf, hname⟩)
      cases hfirst : content.find? fun e => e.1.startsWith "application/json" with
      | some e => exact .inl ⟨e, rfl, rfl⟩
      | none =>
          refine .inr ⟨fun f hf hbegins => ?_, rfl⟩
          have hnone := List.find?_eq_none.1 hfirst f hf
          exact hnone (startsWith_iff.2 hbegins)

/-- Where a key is that of JSON itself, its form is selected however the other keys
are read. -/
theorem selects_of_mem {json suffixed : String → Prop} (hjson : json jsonName)
    {e : String × MediaType} (he : e ∈ content) (hname : e.1 = jsonName)
    (hform : content.json? = some e.2) : Selects json suffixed content := by
  have his : json e.1 := by
    rw [hname]
    exact hjson
  have hsome : content.json?.isSome = true := by
    rw [hform]
    rfl
  refine ⟨iff_of_true hsome ⟨e, he, .inl his⟩, fun m hm => ?_⟩
  rw [hform] at hm
  cases hm
  exact ⟨e, .exact he hname, rfl⟩

/-- The JSON form is selected by the text of the keys, in every table. -/
theorem selects_by_text (hsorted : Table.Sorted content) :
    content.SelectsByText := by
  -- the exact name, then a key that begins with it, then one that ends with the suffix
  rcases json?_cases content with
    ⟨e, he, hname, hjson⟩ | ⟨hexact, ⟨e, hfind, hjson⟩ | ⟨hbegins, hjson⟩⟩
  · exact selects_of_mem begins_jsonName he hname hjson
  · have he : e ∈ content := List.mem_of_find?_eq_some hfind
    have hbegins : Begins e.1 :=
      startsWith_iff.1 (List.find?_eq_some_iff_append.1 hfind).1
    refine ⟨iff_of_true (by rw [hjson]; rfl) ⟨e, he, .inl hbegins⟩, fun m hm => ?_⟩
    rw [hjson] at hm
    cases hm
    exact ⟨e, .parameters he hbegins hexact, rfl⟩
  · constructor
    · rw [hjson, Option.isSome_map, List.find?_isSome]
      constructor
      · rintro ⟨e, he, hends⟩
        exact ⟨e, he, .inr (endsWith_iff.1 hends)⟩
      · rintro ⟨e, he, h⟩
        exact ⟨e, he, endsWith_iff.2 (h.resolve_left (hbegins e he))⟩
    · intro m hm
      rw [hjson] at hm
      obtain ⟨e, hfind, rfl⟩ := Option.map_eq_some_iff.1 hm
      refine ⟨e, .suffix (List.mem_of_find?_eq_some hfind)
        (endsWith_iff.1 (List.find?_eq_some_iff_append.1 hfind).1) hbegins
        fun f hf hends => ?_, rfl⟩
      exact le_of_find? (p := fun k => k.endsWith "+json") hsorted hfind f hf
        (endsWith_iff.2 hends)

/-- Where the text of each key shows its media type, the JSON form is selected by
media types. -/
theorem selects_by_type (hsorted : Table.Sorted content)
    (hplain : ∀ k ∈ Table.keys content, Plain k) : content.SelectsByType := by
  have hkey {f : String × MediaType} (hf : f ∈ content) : Plain f.1 :=
    hplain _ (List.mem_map_of_mem hf)
  obtain ⟨hfound, hpreferred⟩ := selects_by_text hsorted
  refine ⟨hfound.trans (exists_congr fun e => and_congr_right fun he => ?_),
    fun m hm => ?_⟩
  · by_cases hjson : IsJson e.1
    · exact iff_of_true (.inl ((hkey he).json.2 hjson)) (.inl hjson)
    · exact or_congr (hkey he).json ((hkey he).suffix hjson)
  · obtain ⟨e, he, rfl⟩ := hpreferred m hm
    refine ⟨e, ?_, rfl⟩
    cases he with
    | exact hmem hname => exact .exact hmem hname
    | parameters hmem hbegins hexact =>
        exact .parameters hmem ((hkey hmem).json.1 hbegins) hexact
    | suffix hmem hends hnone hfirst =>
        have hjson : ∀ f ∈ content, ¬ IsJson f.1 := fun f hf =>
          mt (hkey hf).json.2 (hnone f hf)
        refine .suffix hmem (((hkey hmem).suffix (hjson _ hmem)).1 hends) hjson
          fun f hf hsuffixed => ?_
        exact hfirst f hf (((hkey hf).suffix (hjson f hf)).2 hsuffixed)

-- ====================================================== keys that mislead

/-- Where no two keys have the same form, one entry is preferred in both ways. -/
theorem exists_preferred (hsorted : Table.Sorted content)
    (htype : content.SelectsByType)
    (hsome : ∃ e ∈ content, Begins e.1 ∨ Ends e.1)
    (hforms : ∀ e ∈ content, ∀ f ∈ content, e.2 = f.2 → e = f) :
    ∃ e, Prefers Begins Ends content e
      ∧ Prefers IsJson IsSuffixed content e := by
  have htext := selects_by_text hsorted
  obtain ⟨m, hm⟩ := Option.isSome_iff_exists.1 (htext.found.2 hsome)
  obtain ⟨e, he, hem⟩ := htext.preferred m hm
  obtain ⟨f, hf, hfm⟩ := htype.preferred m hm
  have hmem {json suffixed : String → Prop} {e : String × MediaType}
      (h : Prefers json suffixed content e) : e ∈ content := by
    cases h <;> assumption
  rw [hforms f (hmem hf) e (hmem he) (hfm.trans hem.symm)] at hf
  exact ⟨e, he, hf⟩

/-- A key with the suffix of JSON that stands in front of almost every other. -/
def lowest : String := "\x00+json"

theorem plain_lowest : Plain lowest ∧ ¬ IsJson lowest ∧ Ends lowest := by
  decide

/-- A table with a further key, whose form is another one. -/
def beside (key : String) : Content :=
  [(lowest, {}), (key, { schema := some {} })]

/-- Beside a key with the suffix, another one is preferred just if it is one of
JSON. -/
theorem prefers_beside {json suffixed : String → Prop} {key : String}
    (hlt : lowest < key) (hname : json jsonName) (hjson : ¬ json lowest)
    (hsuffixed : suffixed lowest) {e : String × MediaType}
    (h : Prefers json suffixed (beside key) e) : e.1 = key ↔ json key := by
  have hmem : e ∈ beside key → e.1 = lowest ∨ e.1 = key := by
    intro he
    simp only [beside, List.mem_cons, List.not_mem_nil, or_false] at he
    exact he.imp (congrArg Prod.fst) (congrArg Prod.fst)
  have hlowest : (lowest, {}) ∈ beside key := List.mem_cons_self ..
  have hkey : (key, { schema := some {} }) ∈ beside key :=
    List.mem_cons_of_mem _ (List.mem_singleton_self _)
  -- only the key with the suffix could be preferred for that reason
  cases h with
  | exact hin he =>
      have hne : e.1 ≠ lowest := by
        rw [he]
        decide
      have heq := (hmem hin).resolve_left hne
      exact iff_of_true heq (by rwa [← heq, he])
  | parameters hin his _ =>
      have hne : e.1 ≠ lowest := fun heq => hjson (heq ▸ his)
      have heq := (hmem hin).resolve_left hne
      exact iff_of_true heq (heq ▸ his)
  | suffix hin _ hnone hfirst =>
      refine iff_of_false (fun heq => ?_) (hnone _ hkey)
      have hle := hfirst _ hlowest hsuffixed
      rw [heq] at hle
      exact String.not_lt.2 hle hlt

/-- So a key is read alike in both ways if the right form is selected there. -/
theorem begins_iff_of_beside {key : String} (hlt : lowest < key)
    (htype : (beside key).SelectsByType) : Begins key ↔ IsJson key := by
  obtain ⟨hplain, hjson, hends⟩ := plain_lowest
  have hbegins : ¬ Begins lowest := mt hplain.json.1 hjson
  have hsorted : Table.Sorted (beside key) := by
    simpa [Table.Sorted, beside] using hlt
  have hforms : ∀ e ∈ beside key, ∀ f ∈ beside key, e.2 = f.2 → e = f := by
    intro e he f hf hform
    simp only [beside, List.mem_cons, List.not_mem_nil, or_false] at he hf
    rcases he with rfl | rfl <;> rcases hf with rfl | rfl
    · rfl
    · cases hform
    · cases hform
    · rfl
  obtain ⟨e, htext, htype⟩ := exists_preferred hsorted htype
    ⟨_, List.mem_cons_self .., .inr hends⟩ hforms
  rw [← prefers_beside hlt begins_jsonName hbegins hends htext]
  exact prefers_beside hlt isJson_jsonName hjson ((hplain.suffix hjson).1 hends) htype

/-- Whatever begins with the media type of JSON, or names it, stands behind the
lowest key. -/
theorem lowest_lt {key : String} (h : Begins key ∨ IsJson key) : lowest < key := by
  have hhead {c : Char} {rest : List Char} (hkey : key.toList = c :: rest)
      (hc : '\x00' < c) : lowest < key := by
    rw [String.lt_iff, hkey]
    exact List.cons_lt_cons_iff.2 (.inl hc)
  rcases h with ⟨rest, hkey⟩ | hjson
  · exact hhead hkey.symm (by decide)
  · obtain ⟨-, before, after, hbefore, -, hfront⟩ := Text.trim_eq_iff.1 hjson
    have hkey : key.toList = before.toList ++ (jsonName.toList
        ++ (after.toList ++ key.toList.dropWhile (· != ';'))) := by
      rw [← String.toList_inj, String.toList_ofList, String.toList_append,
        String.toList_append] at hfront
      rw [← List.append_assoc, ← List.append_assoc, ← hfront,
        List.takeWhile_append_dropWhile]
    cases hblanks : before.toList with
    | nil =>
        rw [hblanks] at hkey
        exact hhead hkey (by decide)
    | cons c blanks =>
        rw [hblanks] at hkey
        refine hhead hkey (Char.not_le.1 fun hle => ?_)
        -- the first character is no blank
        have hblank := hbefore c (by rw [hblanks]; exact List.mem_cons_self ..)
        have hzero : c = '\x00' := Char.le_antisymm hle
          (UInt32.le_iff_toNat_le.2 (Nat.zero_le _))
        rw [hzero] at hblank
        exact absurd hblank (by decide)

/-- A key is plain if the right form is selected wherever all others are. -/
theorem plain_of_selects {key : String}
    (h : ∀ content : Content, Table.Sorted content →
      (∀ k ∈ Table.keys content, k = key ∨ Plain k) → content.SelectsByType) :
    Plain key := by
  have hjson : Begins key ↔ IsJson key := by
    by_cases heither : Begins key ∨ IsJson key
    · have hlt := lowest_lt heither
      refine begins_iff_of_beside hlt (h _ ?_ fun k hk => ?_)
      · simpa [Table.Sorted, beside] using hlt
      · simp only [beside, Table.keys, List.map_cons, List.map_nil, List.mem_cons,
          List.not_mem_nil, or_false] at hk
        rcases hk with rfl | rfl
        · exact .inr plain_lowest.1
        · exact .inl rfl
    · exact iff_of_false (fun hb => heither (.inl hb)) fun hj => heither (.inr hj)
  have hsorted : Table.Sorted [(key, ({} : MediaType))] :=
    List.pairwise_singleton _ _
  have halone := h _ hsorted fun k hk => .inl (List.mem_singleton.1 hk)
  have hsame := (selects_by_text hsorted).found.symm.trans halone.found
  simp only [List.mem_singleton, exists_eq_left] at hsame
  refine ⟨hjson, fun hnot => ?_⟩
  rwa [hjson, or_iff_right hnot, or_iff_right hnot] at hsame

-- ========================================================== main result

/-- The JSON form is selected by how the text of the keys begins and ends. It is
selected by media types too where one key is that of JSON itself, and where the text
of each key shows its media type. A key whose text does not spoils the selection in
a table where all others do. -/
theorem json_form (content : Content) (hsorted : Table.Sorted content) :
    content.SelectsByText
      ∧ (jsonName ∈ Table.keys content ∨ (∀ k ∈ Table.keys content, Plain k) →
          content.SelectsByType)
      ∧ ∀ key ∈ Table.keys content, ¬ Plain key →
          ∃ spoiled : Content, Table.Sorted spoiled
            ∧ (∀ k ∈ Table.keys spoiled, k = key ∨ Plain k)
            ∧ ¬ spoiled.SelectsByType := by
  refine ⟨selects_by_text hsorted, fun h => ?_, fun key _ hkey => ?_⟩
  · rcases h with hkey | hplain
    · obtain ⟨f, hf, hname⟩ := List.mem_map.1 hkey
      rcases json?_cases content with ⟨e, he, hexact, hform⟩ | ⟨hnone, -⟩
      · exact selects_of_mem isJson_jsonName he hexact hform
      · exact absurd hname (hnone f hf)
    · exact selects_by_type hsorted hplain
  · by_contra hnone
    apply hkey
    apply plain_of_selects
    intro other hother hall
    by_contra hspoiled
    exact hnone ⟨other, hother, hall, hspoiled⟩

/-- A body in JSON, or else a problem. -/
def answerOrProblem : Content :=
  [("application/json; charset=utf-8", { schema := some (.ofType "object") }),
   ("application/problem+json", {})]

/-- Both keys are plain, so the form is selected by their media types. -/
theorem json_form_answer : Table.Sorted answerOrProblem
    ∧ (∀ k ∈ Table.keys answerOrProblem, Plain k)
    ∧ answerOrProblem.SelectsByText ∧ answerOrProblem.SelectsByType := by
  have hsorted : Table.Sorted answerOrProblem := by
    simp only [Table.Sorted, answerOrProblem, List.pairwise_cons, List.mem_singleton,
      forall_eq]
    exact ⟨by decide, by simp⟩
  have hplain : ∀ k ∈ Table.keys answerOrProblem, Plain k := by
    decide
  obtain ⟨htext, htype, -⟩ := json_form answerOrProblem hsorted
  exact ⟨hsorted, hplain, htext, htype (.inr hplain)⟩

/-- A sequence of JSON texts is taken for JSON though it is no JSON, and a problem
with parameters is not though it is. -/
theorem sequence_for_json : ∃ sequence problem : Content,
    Table.keys sequence = ["application/json-seq"]
    ∧ sequence.json?.isSome = true ∧ ¬ sequence.SelectsByType
    ∧ Table.keys problem = ["application/problem+json; charset=utf-8"]
    ∧ problem.json? = none ∧ ¬ problem.SelectsByType := by
  refine ⟨[("application/json-seq", {})],
    [("application/problem+json; charset=utf-8", {})], rfl, by decide +kernel,
    fun h => ?_, rfl, Option.isNone_iff_eq_none.1 (by decide +kernel), fun h => ?_⟩
  · obtain ⟨e, he, htype⟩ := h.found.1 (by decide +kernel)
    cases List.mem_singleton.1 he
    exact absurd htype (by decide)
  · have hsome := h.found.2 ⟨_, List.mem_singleton_self _, by decide⟩
    exact absurd hsome (by decide +kernel)

end Content

end ApiForge
