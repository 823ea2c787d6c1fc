import ApiForge.Proofs.Text.Split
import ApiForge.Reference.Pointer
import Mathlib.Data.List.Infix
/-!
What pointers look like.

A pointer to a shared entry is the text `#/components/`, the section of the
entry's kind, a slash, and the entry's name as one segment that is not empty
(`Names`). `Pointer.parse` splits at slashes and restores the marks of every
segment, the fixed ones included; this accepts no other spelling of the fixed
segments, since a mark never restores to a letter. So it reads exactly the
pointers of that form (`parse_eq_ok_iff`), and sorts the others by their first
character (`parse_eq_error_iff`).
-/

namespace ApiForge.Pointer

/-- A pointer names an entry: behind the section of its kind stands the
entry's name, as a segment in which marks are written for slashes and
tildes. -/
def Names (pointer : String) (a : Address) : Prop :=
  ∃ segment : List Char, segment ≠ [] ∧ '/' ∉ segment
    ∧ pointer = "#/components/" ++ a.kind.sectionName ++ "/"
        ++ String.ofList segment
    ∧ a.name = String.ofList (unescape segment)

/-- A pointer stays inside the document. -/
def Inward (pointer : String) : Prop :=
  pointer.toList.head? = some '#'

-- =============================================================== marks

/-- Where no mark has been restored, nothing has changed. -/
theorem replaceMark_eq_self {digit written : Char} {cs : List Char}
    (h : written ∉ replaceMark digit written cs) :
    replaceMark digit written cs = cs := by
  fun_induction replaceMark digit written cs with
  | case1 c rest hc ih => exact absurd (List.mem_cons_self ..) h
  | case2 c rest hc ih =>
      rw [ih fun hmem => h (List.mem_cons_of_mem _ hmem)]
  | case3 c rest _ ih =>
      rw [ih fun hmem => h (List.mem_cons_of_mem _ hmem)]
  | case4 => rfl

/-- A segment whose text holds neither slash nor tilde is written as its
text. -/
theorem unescape_eq_self {cs : List Char} (hslash : '/' ∉ unescape cs)
    (htilde : '~' ∉ unescape cs) : unescape cs = cs := by
  have houter : unescape cs = replaceMark '1' '/' cs :=
    replaceMark_eq_self htilde
  rw [houter] at hslash ⊢
  exact replaceMark_eq_self hslash

/-- A text without tildes is its own segment. -/
theorem replaceMark_of_plain {digit written : Char} {cs : List Char}
    (h : '~' ∉ cs) : replaceMark digit written cs = cs := by
  fun_induction replaceMark digit written cs with
  | case1 => exact absurd (List.mem_cons_self ..) h
  | case2 => exact absurd (List.mem_cons_self ..) h
  | case3 c rest _ ih =>
      rw [ih fun hmem => h (List.mem_cons_of_mem _ hmem)]
  | case4 => rfl

theorem unescape_of_plain {cs : List Char} (h : '~' ∉ cs) :
    unescape cs = cs := by
  rw [unescape, replaceMark_of_plain h, replaceMark_of_plain h]

/-- Only the empty segment has an empty text. -/
theorem unescape_eq_nil {cs : List Char} (h : unescape cs = []) : cs = [] := by
  have hself : unescape cs = cs :=
    unescape_eq_self (by simp [h]) (by simp [h])
  rw [← hself, h]

/-- The fixed segments of a pointer have one spelling. -/
theorem segment_eq_of_text {cs : List Char} {text : String}
    (h : String.ofList (unescape cs) = text) (hslash : '/' ∉ text.toList)
    (htilde : '~' ∉ text.toList) : cs = text.toList := by
  subst h
  rw [String.toList_ofList] at *
  exact (unescape_eq_self hslash htilde).symm

-- ============================================================ sections

theorem ofSection?_sectionName (k : EntryKind) :
    EntryKind.ofSection? k.sectionName = some k := by
  cases k <;> decide

theorem ofSection?_eq_some {s : String} {k : EntryKind}
    (h : EntryKind.ofSection? s = some k) : s = k.sectionName :=
  (beq_iff_eq.1 (List.find?_some h :)).symm

theorem sectionName_plain (k : EntryKind) :
    '/' ∉ k.sectionName.toList ∧ '~' ∉ k.sectionName.toList := by
  cases k <;> decide

-- ============================================================= reading

/-- The segments of three pieces, none with a slash. -/
theorem segments_three {first second third : List Char} (h₁ : '/' ∉ first)
    (h₂ : '/' ∉ second) (h₃ : '/' ∉ third) :
    segments (first ++ '/' :: (second ++ '/' :: third))
      = [first, second, third].map fun s => String.ofList (unescape s) := by
  have uncut {piece : List Char} (h : '/' ∉ piece) :
      ∀ c ∈ piece, (c == '/') = false := by
    intro c hc
    rw [beq_eq_false_iff_ne]
    rintro rfl
    exact h hc
  rw [segments, Text.splitBy_append_cut (uncut h₁) rfl,
    Text.splitBy_append_cut (uncut h₂) rfl, Text.splitBy_of_uncut (uncut h₃)]

/-- A path with three segments is three pieces without slashes. -/
theorem exists_of_segments {path : List Char} {s₁ s₂ s₃ : String}
    (h : segments path = [s₁, s₂, s₃]) :
    ∃ first second third : List Char,
      path = first ++ '/' :: (second ++ '/' :: third) ∧ '/' ∉ third
        ∧ String.ofList (unescape first) = s₁
        ∧ String.ofList (unescape second) = s₂
        ∧ String.ofList (unescape third) = s₃ := by
  rw [segments] at h
  obtain ⟨first, pieces, hsplit, hfirst, h⟩ := List.map_eq_cons_iff.1 h
  obtain ⟨second, pieces, rfl, hsecond, h⟩ := List.map_eq_cons_iff.1 h
  obtain ⟨third, pieces, rfl, hthird, h⟩ := List.map_eq_cons_iff.1 h
  cases List.map_eq_nil_iff.1 h
  refine ⟨first, second, third, ?_, ?_, hfirst, hsecond, hthird⟩
  · have hjoin := Text.intercalate_splitBy '/' path
    rw [hsplit] at hjoin
    simpa [List.intercalate_cons_cons] using hjoin.symm
  · intro hmem
    have huncut := Text.not_cut_of_mem_splitBy
      (hsplit ▸ (by simp : third ∈ [first, second, third])) _ hmem
    exact absurd huncut (by decide)

/-- A pointer is read as the entry that it names. -/
theorem parse_of_names {pointer : String} {a : Address}
    (h : Names pointer a) : parse pointer = .ok a := by
  obtain ⟨segment, hne, hslash, rfl, hname⟩ := h
  obtain ⟨kind, name⟩ := a
  dsimp only at hname ⊢
  have hchars : ("#/components/" ++ kind.sectionName ++ "/"
        ++ String.ofList segment).toList
      = '#' :: '/' :: ("components".toList
          ++ '/' :: (kind.sectionName.toList ++ '/' :: segment)) := by
    simp
  have hfixed : unescape "components".toList = "components".toList :=
    unescape_of_plain (by decide)
  obtain ⟨hplain, htilde⟩ := sectionName_plain kind
  have hname_ne : name.isEmpty = false := by
    rw [hname, String.isEmpty_eq_false_iff, ne_eq, String.ofList_eq_empty_iff]
    exact fun hnil => hne (unescape_eq_nil hnil)
  have hsegments := segments_three
    (show '/' ∉ "components".toList by decide) hplain hslash
  rw [parse]
  simp only [hchars, hsegments, List.map_cons, List.map_nil, hfixed,
    unescape_of_plain htilde, String.ofList_toList, ← hname,
    ofSection?_sectionName, hname_ne, Bool.false_eq_true, ↓reduceIte]

/-- Reading a pointer finds the entry that it names, and nothing else. -/
theorem parse_eq_ok_iff {pointer : String} {a : Address} :
    parse pointer = .ok a ↔ Names pointer a := by
  refine ⟨fun h => ?_, parse_of_names⟩
  rw [parse] at h
  split at h
  · rename_i path hpath
    split at h
    · rename_i section_ name hsegments
      -- three segments, of which the first two are what their texts say
      obtain ⟨first, second, third, rfl, hthird, hfirst, hsecond, rfl⟩ :=
        exists_of_segments hsegments
      split at h
      · rename_i kind hkind
        split at h
        · cases h
        · rename_i hne
          cases h
          cases ofSection?_eq_some hkind
          obtain ⟨hplain, htilde⟩ := sectionName_plain kind
          refine ⟨third, ?_, hthird, ?_, rfl⟩
          · rintro rfl
            exact hne rfl
          · rw [segment_eq_of_text hfirst (by decide) (by decide),
              segment_eq_of_text hsecond hplain htilde] at hpath
            apply String.toList_injective
            simp [hpath]
      · cases h
    · cases h
  · cases h
  · cases h

/-- A pointer names one entry at most. -/
theorem Names.unique {pointer : String} {a b : Address}
    (ha : Names pointer a) (hb : Names pointer b) : a = b :=
  Except.ok.inj ((parse_of_names ha).symm.trans (parse_of_names hb))

/-- What names an entry stays inside the document. -/
theorem Names.inward {pointer : String} {a : Address}
    (h : Names pointer a) : Inward pointer := by
  obtain ⟨segment, -, -, rfl, -⟩ := h
  simp [Inward]

/-- A text that is no pointer to an entry leaves the document or has another
shape. -/
theorem parse_eq_error_iff {pointer : String} {e : ResolveError} :
    parse pointer = .error e
      ↔ (¬ Inward pointer ∧ e = .external pointer)
        ∨ (Inward pointer ∧ (∀ a, ¬ Names pointer a)
            ∧ e = .unsupported pointer) := by
  -- whatever the pointer is, it is read or refused for one of two reasons
  have hcause : (∃ a, parse pointer = .ok a)
      ∨ (Inward pointer ∧ parse pointer = .error (.unsupported pointer))
      ∨ (¬ Inward pointer ∧ parse pointer = .error (.external pointer)) := by
    rw [parse, Inward]
    split
    · rename_i path hpath
      rw [hpath]
      split
      · split
        · split
          · exact .inr (.inl ⟨rfl, rfl⟩)
          · exact .inl ⟨_, rfl⟩
        · exact .inr (.inl ⟨rfl, rfl⟩)
      · exact .inr (.inl ⟨rfl, rfl⟩)
    · rename_i hpath
      rw [hpath]
      exact .inr (.inl ⟨rfl, rfl⟩)
    · rename_i hinner houter
      refine .inr (.inr ⟨fun hhead => ?_, rfl⟩)
      obtain ⟨rest, hrest⟩ := List.head?_eq_some_iff.1 hhead
      exact houter rest hrest
  rcases hcause with ⟨a, ha⟩ | ⟨hin, herror⟩ | ⟨hout, herror⟩
  · have hnames := parse_eq_ok_iff.1 ha
    refine ⟨fun h => absurd (ha.symm.trans h) (by simp), ?_⟩
    rintro (⟨hout, -⟩ | ⟨-, hnone, -⟩)
    · exact absurd hnames.inward hout
    · exact absurd hnames (hnone a)
  · have hnone (a : Address) : ¬ Names pointer a := fun h =>
      absurd (herror.symm.trans (parse_of_names h)) (by simp)
    simp [herror, hin, hnone, eq_comm]
  · simp [herror, hout, eq_comm]

end ApiForge.Pointer
