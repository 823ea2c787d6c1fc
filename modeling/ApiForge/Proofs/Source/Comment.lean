import ApiForge.Proofs.Source.Line
import ApiForge.Proofs.Text.Trim
import Mathlib.Data.List.Basic
/-!
Texts in comments.

A text becomes a comment line by line, and can be read back from there: without
indentation and mark, the lines that are written are the lines of the trimmed
text, without the blanks behind them. `Lined` says what the lines of a text are
without saying how they are found, and they are the ones that are found
(`lined_iff`). A comment ends where its line does, so a line feed never gets into
one. A carriage return does: where it ends no line it stays within the comment,
unless only blanks stand behind it (`return_mem_trimEndChars_iff`). So the lines
are comments just when no carriage return stands so (`doc_carries_text`).
-/

namespace ApiForge

namespace Text

-- ================================================ statement vocabulary

/-- What the lines of a text are. A line feed ends a line, with a carriage return
directly before it or without; the last line may be ended by nothing, but then it
is not empty. -/
inductive Lined : List Char → List (List Char) → Prop
  | none : Lined [] []
  | last {line : List Char} (nonempty : line ≠ []) (whole : '\n' ∉ line) :
      Lined line [line]
  | feed {line rest : List Char} {ls : List (List Char)} (whole : '\n' ∉ line)
      (single : line.getLast? ≠ some '\r') (more : Lined rest ls) :
      Lined (line ++ '\n' :: rest) (line :: ls)
  | both {line rest : List Char} {ls : List (List Char)} (whole : '\n' ∉ line)
      (more : Lined rest ls) : Lined (line ++ '\r' :: '\n' :: rest) (line :: ls)

/-- A carriage return behind which, in its line, something else than blanks
stands. -/
def ReturnWithin (cs : List Char) : Prop :=
  ∃ before after, cs = before ++ '\r' :: after
    ∧ ∃ c ∈ after.takeWhile (· != '\n'), isBlank c = false

-- =============================================================== lines

variable {cs line rest : List Char} {ls : List (List Char)}

/-- What stands in front of a line feed is a line. -/
theorem linesOfChars_append (hwhole : '\n' ∉ line) (rest : List Char) :
    linesOfChars (line ++ '\n' :: rest) = dropReturn line :: linesOfChars rest := by
  rw [linesOfChars, linesOfChars, splitBy_append_cut (uncut_of_not_mem hwhole) rfl]
  cases hrest : splitBy (· == '\n') rest with
  | nil => exact absurd hrest (splitBy_ne_nil _ _)
  | cons piece pieces =>
      rw [List.dropLast_cons_cons, List.getLast?_cons_cons, List.map_cons]
      split <;> rfl

/-- A text that is not empty is its only line if no line feed stands in it. -/
theorem linesOfChars_whole (hne : line ≠ []) (hwhole : '\n' ∉ line) :
    linesOfChars line = [line] := by
  obtain ⟨c, rest, rfl⟩ := List.exists_cons_of_ne_nil hne
  rw [linesOfChars, splitBy_of_uncut (uncut_of_not_mem hwhole)]
  rfl

/-- A line without a return at its end stays as it is. -/
theorem dropReturn_of_single (h : line.getLast? ≠ some '\r') :
    dropReturn line = line := by
  unfold dropReturn
  split
  · rename_i hlast
    exact absurd hlast h
  · rfl

theorem dropReturn_concat (line : List Char) :
    dropReturn (line ++ ['\r']) = line := by
  unfold dropReturn
  rw [List.getLast?_concat]
  exact List.dropLast_concat

/-- Every text has lines. -/
theorem exists_lined (cs : List Char) : ∃ ls, Lined cs ls := by
  by_cases hfeed : '\n' ∈ cs
  · obtain ⟨line, rest, rfl, hwhole⟩ := List.eq_append_cons_of_mem hfeed
    obtain ⟨ls, hls⟩ := exists_lined rest
    by_cases hreturn : line.getLast? = some '\r'
    · obtain ⟨front, rfl⟩ := List.getLast?_eq_some_iff.1 hreturn
      rw [List.append_assoc, List.singleton_append]
      exact ⟨front :: ls,
        .both (fun h => hwhole (List.mem_append_left _ h)) hls⟩
    · exact ⟨line :: ls, .feed hwhole hreturn hls⟩
  · by_cases hempty : cs = []
    · subst hempty
      exact ⟨[], .none⟩
    · exact ⟨[cs], .last hempty hfeed⟩
termination_by cs.length
decreasing_by
  subst_vars
  simp only [List.length_append, List.length_cons]
  omega

/-- The lines that are found are the lines of the text. -/
theorem lined_iff : Lined cs ls ↔ linesOfChars cs = ls := by
  have hfound {cs : List Char} {ls : List (List Char)} (h : Lined cs ls) :
      linesOfChars cs = ls := by
    induction h with
    | none => rfl
    | last hne hwhole => exact linesOfChars_whole hne hwhole
    | feed hwhole hsingle _ ih =>
        rw [linesOfChars_append hwhole, dropReturn_of_single hsingle, ih]
    | @both line rest ls hwhole _ ih =>
        have hwhole' : '\n' ∉ line ++ ['\r'] := by simpa using hwhole
        have happend := linesOfChars_append hwhole' rest
        rwa [dropReturn_concat, ih, List.append_assoc, List.singleton_append]
          at happend
  constructor
  · exact hfound
  · rintro rfl
    obtain ⟨ls, hls⟩ := exists_lined cs
    rwa [hfound hls]

/-- Only the empty text has no lines. -/
theorem linesOfChars_eq_nil_iff : linesOfChars cs = [] ↔ cs = [] := by
  rw [← lined_iff]
  constructor
  · intro h
    cases h
    rfl
  · rintro rfl
    exact .none

-- ==================================================== carriage returns

/-- Up to its first feed, a text without one is all of it. -/
theorem takeWhile_of_whole (h : '\n' ∉ line) :
    line.takeWhile (· != '\n') = line := by
  rw [List.takeWhile_eq_self_iff]
  intro c hc
  rw [bne_iff_ne]
  rintro rfl
  exact h hc

/-- Without the blanks behind it, a line has a carriage return just where
something else stands behind one. -/
theorem return_mem_trimEndChars_iff (hwhole : '\n' ∉ line) :
    '\r' ∈ trimEndChars line ↔ ReturnWithin line := by
  obtain ⟨blanks, hblanks, hline, hlast⟩ := exists_trimEndChars line
  constructor
  · intro hmem
    obtain ⟨before, behind, hfront⟩ := List.append_of_mem hmem
    have hne : behind ≠ [] := by
      rintro rfl
      rw [hfront] at hlast
      exact absurd (hlast '\r' List.getLast?_concat) (by decide)
    -- what is left does not end in a blank, so its last character witnesses the return
    refine ⟨before, behind ++ blanks, ?_, behind.getLast hne, ?_, ?_⟩
    · rw [← List.cons_append, ← List.append_assoc, ← hfront, ← hline]
    · have hbehind : '\n' ∉ behind ++ blanks := by
        intro hfeed
        apply hwhole
        rw [hline, hfront, List.append_assoc, List.cons_append]
        exact List.mem_append_right _ (List.mem_cons_of_mem _ hfeed)
      rw [takeWhile_of_whole hbehind]
      exact List.mem_append_left _ (List.getLast_mem hne)
    · apply hlast
      rw [hfront, List.getLast?_append, List.getLast?_cons,
        List.getLast?_eq_some_getLast hne]
      rfl
  · rintro ⟨before, after, heq, c, hc, hblank⟩
    have hafter : c ∈ after := (List.takeWhile_sublist _).subset hc
    rw [hline, List.append_eq_append_iff] at heq
    rcases heq with ⟨between, -, hrest⟩ | ⟨between, hfront, hrest⟩
    · -- only blanks stand behind this return
      have hmem : c ∈ blanks := by
        rw [hrest]
        exact List.mem_append_right _ (List.mem_cons_of_mem _ hafter)
      rw [hblanks c hmem] at hblank
      cases hblank
    · cases between with
      | nil =>
          have hmem : c ∈ blanks := by
            rw [← List.nil_append blanks, ← hrest]
            exact List.mem_cons_of_mem _ hafter
          rw [hblanks c hmem] at hblank
          cases hblank
      | cons d between =>
          cases hrest
          rw [hfront]
          exact List.mem_append_right _ (List.mem_cons_self ..)

/-- A return that stands so does so in one of two parts, if a line feed parts
them. -/
theorem returnWithin_append (hwhole : '\n' ∉ line) :
    ReturnWithin (line ++ '\n' :: rest) ↔ ReturnWithin line ∨ ReturnWithin rest := by
  have hsplit {after : List Char} (hafter : '\n' ∉ after) :
      (after ++ '\n' :: rest).takeWhile (· != '\n') = after := by
    apply takeWhile_append_cons ?_ rfl
    intro c hc
    rw [bne_iff_ne]
    rintro rfl
    exact hafter hc
  constructor
  · rintro ⟨before, after, heq, hsome⟩
    rw [List.append_eq_append_iff] at heq
    -- the return stands before the feed or behind it, but is not the feed
    rcases heq with ⟨between, rfl, hrest⟩ | ⟨between, rfl, hrest⟩
    · cases between with
      | nil => cases hrest
      | cons c between =>
          obtain ⟨-, hrest⟩ := List.cons.inj hrest
          exact .inr ⟨between, after, hrest, hsome⟩
    · cases between with
      | nil => cases hrest
      | cons c between =>
          rw [List.cons_append, List.cons.injEq] at hrest
          obtain ⟨rfl, rfl⟩ := hrest
          have hbetween : '\n' ∉ between := fun h =>
            hwhole (List.mem_append_right _ (List.mem_cons_of_mem _ h))
          rw [hsplit hbetween] at hsome
          refine .inl ⟨before, between, rfl, ?_⟩
          rwa [takeWhile_of_whole hbetween]
  · rintro (⟨before, after, rfl, hsome⟩ | ⟨before, after, rfl, hsome⟩)
    · have hafter : '\n' ∉ after := fun h =>
        hwhole (List.mem_append_right _ (List.mem_cons_of_mem _ h))
      refine ⟨before, after ++ '\n' :: rest, ?_, ?_⟩
      · rw [List.append_assoc, List.cons_append]
      · rwa [hsplit hafter, ← takeWhile_of_whole hafter]
    · refine ⟨line ++ '\n' :: before, after, ?_, hsome⟩
      rw [List.append_assoc, List.cons_append]

/-- In a text one stands so just when one does in a line of it. -/
theorem Lined.returnWithin_iff (h : Lined cs ls) :
    ReturnWithin cs ↔ ∃ line ∈ ls, '\r' ∈ trimEndChars line := by
  induction h with
  | none =>
      refine iff_of_false ?_ (by simp)
      rintro ⟨before, after, heq, -⟩
      exact absurd heq (by simp)
  | last _ hwhole => simp [return_mem_trimEndChars_iff hwhole]
  | feed hwhole _ _ ih =>
      rw [returnWithin_append hwhole, ih, ← return_mem_trimEndChars_iff hwhole]
      simp
  | @both line rest ls hwhole _ ih =>
      -- the return that ends the line is trimmed away
      have hwhole' : '\n' ∉ line ++ ['\r'] := by simpa using hwhole
      have htrim : trimEndChars (line ++ ['\r']) = trimEndChars line := by
        simp [trimEndChars, show isBlank '\r' = true by decide]
      have happend : ReturnWithin ((line ++ ['\r']) ++ '\n' :: rest)
          ↔ ReturnWithin (line ++ ['\r']) ∨ ReturnWithin rest := returnWithin_append hwhole'
      rw [List.append_assoc, List.singleton_append,
        ← return_mem_trimEndChars_iff hwhole', htrim, ih] at happend
      rw [happend]
      simp

/-- The lines of a text hold no feed. -/
theorem not_feed_of_lined (h : Lined cs ls) : ∀ line ∈ ls, '\n' ∉ line := by
  induction h with
  | none => exact fun _ h => absurd h List.not_mem_nil
  | last _ hwhole =>
      intro line hline
      cases List.mem_singleton.1 hline
      exact hwhole
  | feed hwhole _ _ ih | both hwhole _ ih =>
      exact List.forall_mem_cons.2 ⟨hwhole, ih⟩

/-- Trimming leaves nothing just of a text of blanks. -/
theorem trim_eq_empty_iff {s : String} : trim s = "" ↔ Blanks s := by
  rw [trim_eq_iff]
  constructor
  · rintro ⟨-, before, after, hbefore, hafter, rfl⟩ c hc
    rw [String.append_empty, String.toList_append] at hc
    exact (List.mem_append.1 hc).elim (hbefore c) (hafter c)
  · intro hblank
    have hnone : Blanks "" := fun c hc => absurd hc List.not_mem_nil
    refine ⟨by decide, s, "", hblank, hnone, ?_⟩
    rw [String.append_empty, String.append_empty]

end Text

namespace Source

open Text (Lined ReturnWithin OneLine Blanks)

/-- The text of a line of comment at a depth: what stands behind the indentation
and the mark, with one space between that is left out at the end of a line. -/
def body? (depth : Nat) (line : String) : Option String :=
  (line.toList.dropPrefix? (List.replicate (4 * depth) ' ' ++ ['/', '/', '/'])).bind
    behindMark
where
  /-- What stands behind the mark. -/
  behindMark : List Char → Option String
    | [] => some ""
    | ' ' :: body => some (String.ofList body)
    | _ => none

/-- The line of comment that a text is written as. -/
def commentLine (body : String) : String :=
  if body.isEmpty then "///" else "/// " ++ body

variable {depth : Nat} {body text : String}

/-- The spaces in front of a line at a depth. -/
def indentation (depth : Nat) : String :=
  String.ofList (List.replicate (4 * depth) ' ')

/-- The line of a comment is never empty, so it is always indented. -/
theorem indented_commentLine (depth : Nat) (body : String) :
    indented depth (commentLine body)
      = indentation depth ++ commentLine body ++ "\n" := by
  have hne : (commentLine body).isEmpty = false := by
    unfold commentLine
    split <;> simp
  rw [indented, hne, if_neg Bool.false_ne_true]
  rfl

/-- What is written as a comment is read back. -/
theorem body?_commentLine (depth : Nat) (body : String) :
    body? depth (indentation depth ++ commentLine body) = some body := by
  obtain ⟨rest, hrest, hbody⟩ : ∃ rest,
      (commentLine body).toList = ['/', '/', '/'] ++ rest
        ∧ body?.behindMark rest = some body := by
    unfold commentLine
    split
    · rename_i hempty
      rw [String.isEmpty_iff.1 hempty]
      exact ⟨[], rfl, rfl⟩
    · refine ⟨' ' :: body.toList, String.toList_append, ?_⟩
      rw [body?.behindMark, String.ofList_toList]
  rw [body?, String.toList_append, indentation, String.toList_ofList, hrest,
    ← List.append_assoc, List.dropPrefix?_append_of_beq _ (beq_self_eq_true _)]
  exact hbody

/-- The indentation and the mark hold spaces and slashes only. -/
theorem mem_commentLine_iff {c : Char} (hspace : c ≠ ' ') (hslash : c ≠ '/') :
    c ∈ (indentation depth ++ commentLine body).toList ↔ c ∈ body.toList := by
  rw [String.toList_append, List.mem_append, indentation, String.toList_ofList]
  unfold commentLine
  split
  · rename_i hempty
    rw [String.isEmpty_iff.1 hempty]
    simp [hspace, hslash]
  · simp [hspace, hslash]

/-- The line of comment that a line of a text is written as. -/
def comment (depth : Nat) (line : List Char) : String :=
  indentation depth ++ commentLine (Text.trimEnd (String.ofList line))

/-- A comment is written as one line for each line of the trimmed text. -/
theorem write_doc (depth : Nat) (text : String) :
    (Step.doc (some text)).write depth
      = (String.join (((Text.linesOfChars (Text.trim text).toList).map
          (comment depth)).map (· ++ "\n")), depth) := by
  have hdoc : docLines text = (Text.lines (Text.trim text)).map fun line =>
      commentLine (Text.trimEnd line) := rfl
  have hpieces : (docLines text).map (indented depth)
      = ((Text.linesOfChars (Text.trim text).toList).map (comment depth)).map
        (· ++ "\n") := by
    rw [hdoc, Text.lines]
    simp only [List.map_map]
    apply List.map_congr_left
    intro line _
    simp only [Function.comp_apply, indented_commentLine, comment]
  rw [Step.write, hpieces]

/-- In a comment stand the characters of the line that are not trimmed away. -/
theorem mem_comment_iff {c : Char} (hspace : c ≠ ' ') (hslash : c ≠ '/')
    {line : List Char} :
    c ∈ (comment depth line).toList ↔ c ∈ Text.trimEndChars line := by
  rw [comment, mem_commentLine_iff hspace hslash, Text.trimEnd,
    String.toList_ofList, String.toList_ofList]

/-- The line of a comment holds no feed if its text holds none. -/
theorem not_feed_of_comment {line : List Char} (hwhole : '\n' ∉ line) :
    '\n' ∉ (comment depth line).toList := by
  rw [mem_comment_iff (by decide) (by decide)]
  intro hmem
  obtain ⟨blanks, -, hline, -⟩ := Text.exists_trimEndChars line
  apply hwhole
  rw [hline]
  exact List.mem_append_left _ hmem

/-- The comment for a line is one line unless a carriage return is left in it. -/
theorem oneLine_comment_iff {line : List Char} (hwhole : '\n' ∉ line) :
    OneLine (comment depth line) ↔ '\r' ∉ Text.trimEndChars line := by
  have hmem : '\r' ∈ (comment depth line).toList ↔ '\r' ∈ Text.trimEndChars line :=
    mem_comment_iff (by decide) (by decide)
  rw [← hmem]
  constructor
  · exact fun h hmem => (h _ hmem).2 rfl
  · intro hreturn c hc
    constructor
    · rintro rfl
      exact not_feed_of_comment hwhole hc
    · rintro rfl
      exact hreturn hc

/-- A text in a comment, at any depth, stands in lines that carry the lines of the
trimmed text, without the blanks behind them and in their order; there are none
just for a text of blanks. No line holds a line feed, and none a carriage return
just when none of the text has something else than blanks behind it in its line. -/
theorem doc_carries_text (depth : Nat) (text : String) :
    ∃ added : List String, ∃ ls : List (List Char),
      (Step.doc (some text)).write depth
        = (String.join (added.map (· ++ "\n")), depth)
      ∧ Lined (Text.trim text).toList ls
      ∧ added.map (body? depth)
        = ls.map (fun line => some (Text.trimEnd (String.ofList line)))
      ∧ (added = [] ↔ Blanks text)
      ∧ (∀ line ∈ added, '\n' ∉ line.toList)
      ∧ ((∀ line ∈ added, OneLine line) ↔ ¬ ReturnWithin (Text.trim text).toList) := by
  have hwrite := write_doc depth text
  have hempty : Text.linesOfChars (Text.trim text).toList = [] ↔ (Text.trim text).toList = [] :=
    Text.linesOfChars_eq_nil_iff
  have hlined : Lined (Text.trim text).toList
      (Text.linesOfChars (Text.trim text).toList) := Text.lined_iff.2 rfl
  -- the lines matter only as lines of the trimmed text
  generalize Text.linesOfChars (Text.trim text).toList = ls at hwrite hempty hlined
  have hwhole := Text.not_feed_of_lined hlined
  refine ⟨ls.map (comment depth), ls, hwrite, hlined, ?_, ?_, ?_, ?_⟩
  · rw [List.map_map]
    exact List.map_congr_left fun line _ => body?_commentLine depth _
  · rw [List.map_eq_nil_iff, hempty, String.toList_eq_nil_iff,
      Text.trim_eq_empty_iff]
  · simp only [List.forall_mem_map]
    exact fun line hline => not_feed_of_comment (hwhole line hline)
  · rw [hlined.returnWithin_iff]
    simp only [List.forall_mem_map, not_exists, not_and]
    exact forall₂_congr fun line hline => oneLine_comment_iff (hwhole line hline)

/-- A carriage return alone gets into a comment. -/
theorem return_in_comment :
    docLines "a\rb" = ["/// a\rb"] ∧ ¬ ∀ line ∈ docLines "a\rb", OneLine line := by
  have hlines : docLines "a\rb" = ["/// a\rb"] := by decide +kernel
  rw [hlines]
  exact ⟨rfl, by decide⟩

end Source

end ApiForge
