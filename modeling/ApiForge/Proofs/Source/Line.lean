import ApiForge.Proofs.Text.Split
import ApiForge.Source.Step
import ApiForge.Text.Quoted
import Mathlib.Data.Nat.Init
/-!
The lines of generated source.

Source is written step by step and read line by line. As long as nothing that
is written holds the end of a line, the two agree: the lines of the text are
the texts of the steps (`lines_text`). Free text of a document gets into a
line in two ways, quoted or with its blanks replaced, and neither lets the end
of a line through (`oneLine_encode`, `oneLine_singleLine`).
-/

namespace ApiForge

namespace Text

-- ============================================================ one line

/-- A text that holds no end of a line. -/
def OneLine (s : String) : Prop :=
  ∀ c ∈ s.toList, c ≠ '\n' ∧ c ≠ '\r'

instance (s : String) : Decidable (OneLine s) :=
  List.decidableBAll _ _

/-- Two texts on one line stand on one line together. -/
theorem OneLine.append {s t : String} (hs : OneLine s) (ht : OneLine t) :
    OneLine (s ++ t) := by
  intro c hc
  rw [String.toList_append] at hc
  rcases List.mem_append.1 hc with hc | hc
  · exact hs c hc
  · exact ht c hc

-- ============================================================ splitting

/-- Pieces without a cut, each ended by one, are split into themselves and an
empty rest. -/
theorem splitBy_pieces {l : List (List Char)}
    (h : ∀ piece ∈ l, '\n' ∉ piece) :
    splitBy (· == '\n') (l.flatMap (· ++ ['\n'])) = l ++ [[]] := by
  induction l with
  | nil => rfl
  | cons piece l ih =>
      have huncut := uncut_of_not_mem (h piece (List.mem_cons_self ..))
      rw [List.flatMap_cons, List.append_assoc, List.singleton_append,
        splitBy_append_cut huncut rfl,
        ih fun x hx => h x (List.mem_cons_of_mem _ hx), List.cons_append]

/-- A line without a carriage return stays as it is. -/
theorem dropReturn_eq {cs : List Char} (h : '\r' ∉ cs) : dropReturn cs = cs := by
  unfold dropReturn
  split
  · rename_i hlast
    exact absurd (List.mem_of_getLast? hlast) h
  · rfl

/-- The lines of a text that has been written line by line. -/
theorem lines_join {ts : List String} (h : ∀ t ∈ ts, OneLine t) :
    lines (String.join (ts.map (· ++ "\n"))) = ts := by
  have hchars : (String.join (ts.map (· ++ "\n"))).toList
      = (ts.map String.toList).flatMap (· ++ ['\n']) := by
    simp [String.toList_join, List.flatMap_map]
  have hsplit := splitBy_pieces (l := ts.map String.toList) fun piece hp => by
    obtain ⟨t, ht, rfl⟩ := List.mem_map.1 hp
    exact fun hmem => (h t ht _ hmem).1 rfl
  have hreturn : (ts.map String.toList).map dropReturn
      = ts.map String.toList := by
    rw [List.map_map]
    refine List.map_congr_left fun t ht => dropReturn_eq fun hmem => ?_
    exact (h t ht _ hmem).2 rfl
  rw [lines, linesOfChars, hchars, hsplit]
  simp only [List.dropLast_concat, List.getLast?_concat, hreturn,
    List.map_map]
  exact List.map_id'' (fun t => String.ofList_toList) ts

-- ============================================================ free text

/-- Words stand on one line. -/
theorem oneLine_of_mem_words {s w : String} (h : w ∈ words s) : OneLine w := by
  obtain ⟨piece, hpiece, rfl⟩ := List.mem_map.1 h
  intro c hc
  rw [String.toList_ofList] at hc
  have hblank := not_cut_of_mem_splitBy (List.mem_filter.1 hpiece).1 c hc
  constructor
  · rintro rfl
    exact absurd hblank (by decide)
  · rintro rfl
    exact absurd hblank (by decide)

/-- A text with its blanks replaced stands on one line. -/
theorem oneLine_singleLine (s : String) : OneLine (singleLine s) := by
  have join (ws : List String) (h : ∀ w ∈ ws, OneLine w) :
      OneLine (" ".intercalate ws) := by
    induction ws with
    | nil =>
        rw [String.intercalate_nil]
        decide
    | cons w rest ih =>
        have hw := h w (List.mem_cons_self ..)
        have hrest := ih fun x hx => h x (List.mem_cons_of_mem _ hx)
        cases rest with
        | nil =>
            rw [String.intercalate_singleton]
            exact hw
        | cons x rest =>
            rw [String.intercalate_cons_cons]
            exact (hw.append (by decide)).append hrest
  exact join (words s) fun w hw => oneLine_of_mem_words hw

/-- Digits are no ends of lines. -/
theorem ne_of_mem_toDigits {n : Nat} :
    ∀ c ∈ Nat.toDigits 16 n, c ≠ '\n' ∧ c ≠ '\r' := by
  have digit (m : Nat) : m.digitChar ≠ '\n' ∧ m.digitChar ≠ '\r' :=
    ⟨Nat.digitChar_ne _ (by decide), Nat.digitChar_ne _ (by decide)⟩
  induction n using Nat.strong_induction_on with | h n ih => ?_
  intro c hc
  rw [Nat.toDigits_eq_if (by decide)] at hc
  split at hc
  · cases List.mem_singleton.1 hc
    exact digit n
  · rcases List.mem_append.1 hc with hc | hc
    · exact ih (n / 16) (Nat.div_lt_self (by omega) (by decide)) c hc
    · cases List.mem_singleton.1 hc
      exact digit _

/-- A quoted text stands on one line. -/
theorem oneLine_encode (s : String) : OneLine (Quoted.encode s) := by
  have char (a : Char) :
      ∀ c ∈ Quoted.encodeChar a, c ≠ '\n' ∧ c ≠ '\r' := by
    unfold Quoted.encodeChar
    split
    · simp
    · simp
    · simp
    · simp
    · simp
    · simp
    · rename_i hreturn hfeed _ _
      split
      · intro c hc
        -- a character written as it is; the two that end a line were told apart before
        cases List.mem_singleton.1 hc
        exact ⟨hfeed, hreturn⟩
      · intro c hc
        simp only [Quoted.codePoint, List.mem_cons, List.mem_append,
          List.not_mem_nil, or_false] at hc
        rcases hc with rfl | rfl | rfl | hc | rfl
        · decide
        · decide
        · decide
        · exact ne_of_mem_toDigits c hc
        · decide
  intro c hc
  rw [Quoted.encode, String.toList_ofList] at hc
  simp only [Quoted.encodeChars, List.mem_cons, List.mem_append,
    List.mem_flatMap, List.not_mem_nil, or_false] at hc
  rcases hc with rfl | ⟨a, -, hc⟩ | rfl
  · decide
  · exact char a c hc
  · decide

end Text

namespace Source

/-- The line that a step writes outside of any block, unless it writes several
or none, or opens or closes a block. -/
def Step.flat? : Step → Option String
  | .line text => some text
  | .blank => some ""
  | _ => none

/-- The lines of source that opens no block are the texts of its steps. -/
theorem lines_text {steps : List Step} {ts : List String}
    (hflat : steps.map Step.flat? = ts.map some)
    (h : ∀ t ∈ ts, Text.OneLine t) : Text.lines (text steps) = ts := by
  have hpieces : Step.pieces 0 steps = ts.map (· ++ "\n") := by
    clear h
    induction steps generalizing ts with
    | nil => cases ts with
      | nil => rfl
      | cons t ts => cases hflat
    | cons s rest ih =>
        cases ts with
        | nil => cases hflat
        | cons t ts =>
            obtain ⟨hs, hrest⟩ := List.cons.inj hflat
            -- at depth zero a line is not indented, so the text of a step is its line
            have hwrite : s.write 0 = (t ++ "\n", 0) := by
              cases s with
              | line text =>
                  cases hs
                  rw [Step.write, indented]
                  split
                  · rename_i hempty
                    rw [String.isEmpty_iff.1 hempty]
                    rfl
                  · simp
              | blank => cases hs; rfl
              | _ => cases hs
            rw [Step.pieces, hwrite, List.map_cons, ← ih hrest]
  rw [text, hpieces]
  exact Text.lines_join h

end Source

end ApiForge
