import ApiForge.Proofs.Source.Line
/-!
The code of generated source.

The code of a text is what is left when every line that is a comment is taken
out (`codeLines`). The steps that write source tell which of them write
comments only: a doc comment does whatever its text is, since every line of it
is marked (`isComment_of_mem_docLines`), and a line does that begins with the
mark and goes on without an end of line. So the code of the source that steps
write is the code of what the other steps write (`codeLines_text`), and sources
have the same code if they are written by the same steps up to comments.
-/

namespace ApiForge

namespace Text

/-- No line holds a line feed. -/
theorem not_feed_of_mem_lines {s line : String} (h : line ∈ lines s) :
    '\n' ∉ line.toList := by
  have hpiece : ∀ piece ∈ splitBy (· == '\n') s.toList, '\n' ∉ piece := by
    intro piece hmem hfeed
    exact absurd (not_cut_of_mem_splitBy hmem _ hfeed) (by decide)
  -- dropping the return at the end of a piece brings no feed in
  have hended : ∀ cs ∈ (splitBy (· == '\n') s.toList).dropLast.map dropReturn,
      '\n' ∉ cs := by
    intro cs hcs
    obtain ⟨piece, hmem, rfl⟩ := List.mem_map.1 hcs
    have hnot := hpiece piece ((List.dropLast_sublist _).subset hmem)
    rw [dropReturn]
    split
    · exact fun hfeed => hnot ((List.dropLast_sublist _).subset hfeed)
    · exact hnot
  obtain ⟨cs, hcs, rfl⟩ := List.mem_map.1 h
  rw [String.toList_ofList]
  rw [linesOfChars] at hcs
  split at hcs
  · rename_i c rest hlast
    rcases List.mem_append.1 hcs with hcs | hcs
    · exact hended cs hcs
    · cases List.mem_singleton.1 hcs
      exact hpiece _ (List.mem_of_getLast? hlast)
  · exact hended cs hcs

end Text

namespace Source

open Text (splitBy splitBy_append_cons)

/-- Whether a line is a comment: it begins with two slashes, apart from spaces
before them. -/
def isComment (line : List Char) : Bool :=
  ['/', '/'].isPrefixOf (line.dropWhile (· == ' '))

/-- The lines of a text that are no comments. -/
def codeLines (text : String) : List String :=
  ((splitBy (· == '\n') text.toList).filter fun line => !isComment line).map
    String.ofList

/-- A line is code or comment whatever follows it. -/
theorem codeLines_append (line rest : String) :
    codeLines (line ++ "\n" ++ rest) = codeLines line ++ codeLines rest := by
  have hchars : (line ++ "\n" ++ rest).toList
      = line.toList ++ '\n' :: rest.toList := by
    simp
  rw [codeLines, hchars, splitBy_append_cons rfl, List.filter_append,
    List.map_append]
  rfl

example : codeLines "pub mod a;\n  // pub mod b;\n/// c\n" = ["pub mod a;", ""] := by
  decide +kernel

/-- A text on one line that is a comment has no code. -/
theorem codeLines_of_isComment {line : String} (hfeed : '\n' ∉ line.toList)
    (h : isComment line.toList = true) : codeLines line = [] := by
  rw [codeLines, Text.splitBy_of_uncut (Text.uncut_of_not_mem hfeed)]
  simp [h]

/-- Indentation does not make a comment code. -/
theorem isComment_spaces (n : Nat) (line : List Char) :
    isComment (List.replicate n ' ' ++ line) = isComment line := by
  induction n with
  | zero => rfl
  | succ n ih =>
      rw [List.replicate_succ, List.cons_append, isComment,
        List.dropWhile_cons_of_pos (by rfl)]
      exact ih

/-- What begins with a comment is one. -/
theorem isComment_append {line : List Char} (h : isComment line = true)
    (rest : List Char) : isComment (line ++ rest) = true := by
  induction line with
  | nil => exact absurd h (by decide)
  | cons c line ih =>
      rw [isComment, List.dropWhile_cons] at h
      rw [List.cons_append, isComment, List.dropWhile_cons]
      split
      · rename_i hspace
        rw [if_pos hspace] at h
        exact ih h
      · rename_i hspace
        rw [if_neg hspace, List.isPrefixOf_iff_prefix] at h
        rw [List.isPrefixOf_iff_prefix, ← List.cons_append]
        exact h.trans (List.prefix_append ..)

-- ================================================================= steps

namespace Step

/-- Whether a step writes nothing but comments. -/
def isComment : Step → Bool
  | line text => Source.isComment text.toList && !text.toList.contains '\n'
  | doc _ => true
  | _ => false

end Step

/-- The steps that write code. -/
def code (steps : List Step) : List Step :=
  steps.filter fun s => !s.isComment

section

variable {α : Type} (steps rest : List Step)

@[simp] theorem code_append : code (steps ++ rest) = code steps ++ code rest :=
  List.filter_append ..

@[simp] theorem code_flatMap (l : List α) (f : α → List Step) :
    code (l.flatMap f) = l.flatMap fun a => code (f a) :=
  List.filter_flatMap ..

@[simp] theorem code_blank : code (.blank :: rest) = .blank :: code rest :=
  List.filter_cons_of_pos (by rfl)

@[simp] theorem code_doc (text : Option String) :
    code (.doc text :: rest) = code rest :=
  List.filter_cons_of_neg (by simp [Step.isComment])

theorem code_of_isComment {s : Step} (h : s.isComment = true) :
    code (s :: rest) = code rest := by
  rw [code, List.filter_cons_of_neg (by simp [h])]
  rfl

end

/-- A line that begins with a comment and does not end early is one. -/
theorem isComment_line {mark rest : String}
    (hmark : isComment mark.toList = true) (hm : Text.OneLine mark)
    (hrest : Text.OneLine rest) :
    (Step.line (mark ++ rest)).isComment = true := by
  have hfeed : (mark ++ rest).toList.contains '\n' = false := by
    rw [List.contains_eq_mem, decide_eq_false_iff_not]
    exact fun hmem => ((hm.append hrest) _ hmem).1 rfl
  rw [Step.isComment, hfeed, String.toList_append, isComment_append hmark]
  rfl

/-- Every line of a doc comment is a comment, and is one line. -/
theorem isComment_of_mem_docLines {text line : String}
    (h : line ∈ docLines text) :
    isComment line.toList = true ∧ '\n' ∉ line.toList := by
  obtain ⟨given, hgiven, rfl⟩ := List.mem_map.1 h
  have hfeed : '\n' ∉ (Text.trimEnd given).toList := by
    intro hmem
    refine Text.not_feed_of_mem_lines hgiven ?_
    rw [Text.trimEnd, String.toList_ofList, Text.trimEndChars,
      List.mem_reverse] at hmem
    exact List.mem_reverse.1 ((List.dropWhile_sublist _).subset hmem)
  dsimp only
  split
  · exact ⟨by decide, by decide⟩
  · rw [String.toList_append]
    refine ⟨rfl, fun hmem => ?_⟩
    rcases List.mem_append.1 hmem with hmem | hmem
    · exact absurd hmem (by decide)
    · exact hfeed hmem

/-- A line of comment adds no code, at any depth. -/
theorem codeLines_indented {text : String} (hfeed : '\n' ∉ text.toList)
    (h : isComment text.toList = true) (depth : Nat) (rest : String) :
    codeLines (indented depth text ++ rest) = codeLines rest := by
  have hsome : text.isEmpty = false := by
    rw [Bool.eq_false_iff]
    intro hempty
    rw [String.isEmpty_iff.1 hempty] at h
    exact absurd h (by decide)
  rw [indented, hsome, if_neg Bool.false_ne_true, codeLines_append,
    codeLines_of_isComment, List.nil_append]
  · simpa using hfeed
  · rw [String.toList_append, String.toList_ofList, isComment_spaces, h]

/-- Neither do several. -/
theorem codeLines_comments {ls : List String}
    (h : ∀ line ∈ ls, isComment line.toList = true ∧ '\n' ∉ line.toList)
    (depth : Nat) (rest : String) :
    codeLines (String.join (ls.map (indented depth)) ++ rest)
      = codeLines rest := by
  induction ls with
  | nil => exact congrArg codeLines (String.empty_append ..)
  | cons line more ih =>
      obtain ⟨hline, hfeed⟩ := h line (List.mem_cons_self ..)
      rw [List.map_cons, String.join_cons, String.append_assoc,
        codeLines_indented hfeed hline]
      exact ih fun l hl => h l (List.mem_cons_of_mem _ hl)

/-- A step that writes comments adds no code, and leaves the depth. -/
theorem write_of_isComment {s : Step} (h : s.isComment = true) (depth : Nat)
    (rest : String) :
    codeLines ((s.write depth).1 ++ rest) = codeLines rest
      ∧ (s.write depth).2 = depth := by
  match s with
  | .line text =>
      rw [Step.isComment, Bool.and_eq_true, Bool.not_eq_true',
        List.contains_eq_mem, decide_eq_false_iff_not] at h
      exact ⟨codeLines_indented h.2 h.1 depth rest, rfl⟩
  | .doc none => exact ⟨congrArg codeLines (String.empty_append ..), rfl⟩
  | .doc (some text) =>
      have hlines : ∀ line ∈ docLines text,
          isComment line.toList = true ∧ '\n' ∉ line.toList :=
        fun line hline => isComment_of_mem_docLines hline
      simp only [Step.write, codeLines_comments hlines depth rest, and_self]

/-- Any other step writes whole lines. -/
theorem write_of_not_isComment {s : Step} (h : s.isComment = false)
    (depth : Nat) : ∃ text, (s.write depth).1 = text ++ "\n" := by
  have hindented (depth : Nat) (text : String) :
      ∃ t, indented depth text = t ++ "\n" := by
    rw [indented]
    split
    · exact ⟨"", rfl⟩
    · exact ⟨_, rfl⟩
  cases s with
  | doc text => cases h
  | blank => exact ⟨"", rfl⟩
  | line text | enter text | leave text | turn text => exact hindented _ _

/-- The code of source is that of what the steps write that are no comments. -/
theorem codeLines_text (steps : List Step) :
    codeLines (text (code steps)) = codeLines (text steps) := by
  have hpieces (depth : Nat) :
      codeLines (String.join (Step.pieces depth (code steps)))
        = codeLines (String.join (Step.pieces depth steps)) := by
    induction steps generalizing depth with
    | nil => rfl
    | cons s rest ih =>
        cases hs : s.isComment with
        | true =>
            obtain ⟨hnone, hdepth⟩ := write_of_isComment hs depth
              (String.join (Step.pieces depth rest))
            rw [Step.pieces, String.join_cons, hdepth, hnone, ← ih, code,
              List.filter_cons_of_neg (by simp [hs])]
            rfl
        | false =>
            obtain ⟨t, ht⟩ := write_of_not_isComment hs depth
            rw [code, List.filter_cons_of_pos (by simp [hs]), Step.pieces,
              Step.pieces, String.join_cons, String.join_cons, ht,
              codeLines_append, codeLines_append]
            exact congrArg _ (ih _)
  exact hpieces 0

/-- Sources whose steps are the same but for comments have the same code. -/
theorem codeLines_congr {steps steps' : List Step}
    (h : code steps = code steps') :
    codeLines (text steps) = codeLines (text steps') := by
  rw [← codeLines_text, h, codeLines_text]

end Source

end ApiForge
