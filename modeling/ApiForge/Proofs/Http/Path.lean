import ApiForge.Http.Path
import ApiForge.Proofs.Text.Split
import Mathlib.Data.List.Basic
import Mathlib.Data.List.TakeWhile
import Mathlib.Data.Nat.Init
/-!
The parts of a path.

`Path.Slashed parts cs` says that the characters `cs` write some parts with
slashes: one or more between two parts, and any number before the first and
behind the last. The parts can be told from what is written
(`Slashed.pieces`). How many slashes stand in a row does not matter to the
parts of any path, so those of a path in normal form are its own
(`segments_normalize`).

The normal form of a path is `IsNormal`: it is not empty, no two slashes stand
side by side, and none stands at the end unless it is all there is
(`isNormal_normalize`). What is in this form is left as it is
(`normalize_of_isNormal`).
-/

namespace ApiForge.Http.Path

open Text (splitBy)

variable {cs part : List Char} {parts : List (List Char)} {path : String}

-- ================================================ statement vocabulary

/-- Parts written with slashes before, between and behind them. -/
inductive Slashed : List (List Char) → List Char → Prop
  | empty : Slashed [] []
  | slash {parts : List (List Char)} {cs : List Char} :
      Slashed parts cs → Slashed parts ('/' :: cs)
  | last (part : List Char) : Slashed [part] part
  | part {parts : List (List Char)} {cs : List Char} (part : List Char) :
      Slashed parts cs → Slashed (part :: parts) (part ++ '/' :: cs)

-- =============================================================== pieces

/-- The pieces between slashes, without empty ones. -/
def pieces (cs : List Char) : List (List Char) :=
  (splitBy (· == '/') cs).filter fun s => !s.isEmpty

theorem segments_eq (path : String) :
    segments path = (pieces path.toList).map String.ofList := rfl

theorem pieces_nil : pieces [] = [] := rfl

theorem pieces_slash (cs : List Char) : pieces ('/' :: cs) = pieces cs := by
  rw [pieces, splitBy, if_pos (beq_self_eq_true _)]
  rfl

/-- A slash separates the pieces before it from those behind it. -/
theorem pieces_append_slash (cs ds : List Char) :
    pieces (cs ++ '/' :: ds) = pieces cs ++ pieces ds := by
  rw [pieces, Text.splitBy_append_cons (p := (· == '/')) rfl,
    List.filter_append]
  rfl

theorem pieces_part (hpart : part ≠ []) (hslash : '/' ∉ part) :
    pieces part = [part] := by
  rw [pieces, Text.splitBy_of_uncut (Text.uncut_of_not_mem hslash)]
  simp [hpart]

/-- No piece is empty, and none holds a slash. -/
theorem of_mem_pieces (h : part ∈ pieces cs) : part ≠ [] ∧ '/' ∉ part := by
  obtain ⟨hmem, hnonempty⟩ := List.mem_filter.1 h
  refine ⟨fun hnil => ?_, fun hslash => ?_⟩
  · rw [hnil] at hnonempty
    cases hnonempty
  · have huncut := Text.not_cut_of_mem_splitBy hmem _ hslash
    cases huncut

/-- Parts that are not empty and hold no slash are the pieces of what writes
them. -/
theorem Slashed.pieces (h : Slashed parts cs)
    (hparts : ∀ part ∈ parts, part ≠ [] ∧ '/' ∉ part) : pieces cs = parts := by
  induction h with
  | empty => exact pieces_nil
  | slash _ ih => rw [pieces_slash, ih hparts]
  | last part =>
      obtain ⟨hpart, hslash⟩ := hparts part (List.mem_singleton_self _)
      exact pieces_part hpart hslash
  | part part _ ih =>
      obtain ⟨⟨hpart, hslash⟩, hrest⟩ := List.forall_mem_cons.1 hparts
      rw [pieces_append_slash, pieces_part hpart hslash, ih hrest]
      rfl

/-- All characters write their pieces. The induction is on how many there are:
the characters before the first slash are taken off together. -/
theorem slashed_pieces (cs : List Char) : Slashed (pieces cs) cs := by
  induction hn : cs.length using Nat.strong_induction_on
    generalizing cs with | h n ih => ?_
  obtain ⟨part, rest, hcs, hslash, hrest⟩ : ∃ part rest, cs = part ++ rest
      ∧ '/' ∉ part ∧ ∀ c ∈ rest.head?, c = '/' := by
    refine ⟨cs.takeWhile (· != '/'), cs.dropWhile (· != '/'),
      List.takeWhile_append_dropWhile.symm, fun hmem => ?_, fun c hc => ?_⟩
    · have hne := List.mem_takeWhile_imp hmem
      cases hne
    · have hnot := List.head?_dropWhile_not (· != '/') cs
      rw [Option.mem_def.1 hc] at hnot
      simpa using hnot
  subst hcs
  -- the path ends here, or a slash stands behind the part
  cases rest with
  | nil =>
      rw [List.append_nil]
      by_cases hpart : part = []
      · rw [hpart]
        exact .empty
      · rw [pieces_part hpart hslash]
        exact .last part
  | cons c rest =>
      cases hrest c rfl
      have hlt : rest.length < n := by
        rw [← hn, List.length_append, List.length_cons]
        omega
      have hslashed := ih _ hlt rest rfl
      by_cases hpart : part = []
      · rw [hpart, List.nil_append, pieces_slash]
        exact .slash hslashed
      · rw [pieces_append_slash, pieces_part hpart hslash]
        exact .part part hslashed

-- ========================================================== normal form

/-- A row of characters that are no slashes is kept. -/
theorem collapse_append {after : Bool} (hpart : part ≠ []) (hslash : '/' ∉ part)
    (cs : List Char) :
    collapse after (part ++ cs) = part ++ collapse false cs := by
  induction part generalizing after with
  | nil => exact absurd rfl hpart
  | cons c part ih =>
      obtain ⟨hc, hrest⟩ := not_or.1 (mt List.mem_cons.2 hslash)
      have hne : (c == '/') = false := beq_eq_false_iff_ne.2 (Ne.symm hc)
      rw [List.cons_append, collapse, hne, if_neg Bool.false_ne_true]
      by_cases hnil : part = []
      · rw [hnil]
        rfl
      · rw [ih hnil hrest]
        rfl

/-- Where several slashes become one, the parts are the same. -/
theorem Slashed.collapse {after : Bool} (h : Slashed parts cs)
    (hparts : ∀ part ∈ parts, part ≠ [] ∧ '/' ∉ part) :
    Slashed parts (collapse after cs) := by
  induction h generalizing after with
  | empty => exact .empty
  | slash _ ih =>
      rw [Path.collapse, if_pos (beq_self_eq_true _)]
      split
      · exact ih hparts
      · exact .slash (ih hparts)
  | last part =>
      obtain ⟨hpart, hslash⟩ := hparts part (List.mem_singleton_self _)
      have hkept : Path.collapse after (part ++ [])
          = part ++ Path.collapse false [] := collapse_append hpart hslash []
      rw [List.append_nil] at hkept
      rw [hkept, Path.collapse, List.append_nil]
      exact .last part
  | part part _ ih =>
      obtain ⟨⟨hpart, hslash⟩, hrest⟩ := List.forall_mem_cons.1 hparts
      rw [collapse_append hpart hslash, Path.collapse,
        if_pos (beq_self_eq_true _), if_neg Bool.false_ne_true]
      exact .part part (ih hrest)

/-- The slash at the end belongs to no part. -/
theorem pieces_dropLastSlash (cs : List Char) :
    pieces (dropLastSlash cs) = pieces cs := by
  unfold dropLastSlash
  split
  · rfl
  · rfl
  · split
    · rename_i hlast
      have hsplit := List.dropLast_append_getLast? '/' (beq_iff_eq.1 hlast)
      conv => rhs; rw [← hsplit]
      rw [pieces_append_slash, pieces_nil, List.append_nil]
    · rfl

/-- A path and its normal form have the same parts. -/
theorem segments_normalize (path : String) :
    segments (normalize path) = segments path := by
  have hcollapsed :
      Slashed (pieces path.toList) (collapse false path.toList) :=
    (slashed_pieces path.toList).collapse fun part => of_mem_pieces
  rw [segments_eq, segments_eq, normalize, String.toList_ofList,
    pieces_dropLastSlash, hcollapsed.pieces fun part => of_mem_pieces]

-- ========================================================= one form only

/-- No two slashes stand side by side. -/
def Single (cs : List Char) : Prop :=
  ¬ ['/', '/'] <:+: cs

/-- Characters in normal form: there are some, no two slashes stand side by side,
and a slash at the end is all there is. -/
structure IsNormal (cs : List Char) : Prop where
  nonempty : cs ≠ []
  single : Single cs
  last : cs.getLast? = some '/' → cs = ['/']

/-- A sign in front keeps slashes single, if it is not a second one. -/
theorem single_cons {c : Char} (hc : c = '/' → cs.head? ≠ some '/')
    (h : Single cs) : Single (c :: cs) := by
  unfold Single
  rw [List.infix_cons_iff, List.cons_prefix_cons]
  rintro (⟨heq, hprefix⟩ | hinfix)
  · apply hc heq.symm
    obtain ⟨rest, rfl⟩ := hprefix
    rfl
  · exact h hinfix

theorem single_of_cons {c : Char} (h : Single (c :: cs)) :
    Single cs ∧ (c = '/' → cs.head? ≠ some '/') := by
  refine ⟨fun hinfix => h (List.infix_cons hinfix), fun hc hhead => h ?_⟩
  obtain ⟨rest, rfl⟩ := List.head?_eq_some_iff.1 hhead
  rw [hc]
  exact (List.prefix_append ['/', '/'] rest).isInfix

/-- What is collapsed holds no two slashes side by side, and does not begin with
one behind a slash. -/
theorem single_collapse (after : Bool) (cs : List Char) :
    Single (collapse after cs)
      ∧ (after = true → (collapse after cs).head? ≠ some '/') := by
  induction cs generalizing after with
  | nil =>
      unfold Single
      simp [collapse]
  | cons c rest ih =>
      obtain ⟨hsingle, hhead⟩ := ih true
      by_cases hc : c = '/'
      · cases after with
        | true => simpa [collapse, hc] using ih true
        | false =>
            have hcons : Single ('/' :: collapse true rest) :=
              single_cons (fun _ => hhead rfl) hsingle
            simpa [collapse, hc] using hcons
      · have hcons : Single (c :: collapse false rest) :=
          single_cons (fun h => absurd h hc) (ih false).1
        simpa [collapse, hc] using hcons

/-- Where no two slashes stand side by side, nothing is collapsed. -/
theorem collapse_of_single {after : Bool}
    (hhead : after = true → cs.head? ≠ some '/') (h : Single cs) :
    collapse after cs = cs := by
  induction cs generalizing after with
  | nil => rfl
  | cons c rest ih =>
      obtain ⟨hrest, hnext⟩ := single_of_cons h
      by_cases hc : c = '/'
      · cases after with
        | true => simp [hc] at hhead
        | false => simp [collapse, hc, ih (fun _ => hnext hc) hrest]
      · have hkept : collapse false rest = rest := ih (by simp) hrest
        simp [collapse, hc, hkept]

theorem head?_collapse (cs : List Char) :
    (collapse false cs).head? = cs.head? := by
  cases cs with
  | nil => rfl
  | cons c rest => by_cases hc : c = '/' <;> simp [collapse, hc]

/-- Without two slashes side by side, and without the slash at its end, a path is in
normal form. -/
theorem isNormal_dropLastSlash (h : Single cs) :
    IsNormal (dropLastSlash cs) := by
  unfold dropLastSlash
  split
  · refine ⟨List.cons_ne_nil _ _, fun hinfix => ?_, fun _ => rfl⟩
    exact absurd hinfix.length_le (by decide)
  · rename_i c
    refine ⟨List.cons_ne_nil _ _, h, fun hlast => ?_⟩
    simpa using hlast
  · rename_i hnil hone
    split
    · rename_i hlast
      -- the slash is taken off, and there is none before it
      have hsplit := List.dropLast_append_getLast? '/' (beq_iff_eq.1 hlast)
      refine ⟨fun hempty => ?_, fun hinfix => h ?_, fun hlast' => (h ?_).elim⟩
      · rw [hempty] at hsplit
        exact hone _ hsplit.symm
      · exact hinfix.trans (List.dropLast_prefix cs).isInfix
      · have hsplit' := List.dropLast_append_getLast? '/' hlast'
        rw [← hsplit', List.append_assoc] at hsplit
        rw [← hsplit]
        exact (List.suffix_append _ _).isInfix
    · rename_i hlast
      exact ⟨hnil, h, fun hlast' => absurd (beq_iff_eq.2 hlast') hlast⟩

/-- A path in normal form has no slash to be dropped. -/
theorem dropLastSlash_of_isNormal (h : IsNormal cs) : dropLastSlash cs = cs := by
  unfold dropLastSlash
  split
  · exact absurd rfl h.nonempty
  · rfl
  · split
    · rename_i hone hlast
      exact absurd (h.last (beq_iff_eq.1 hlast)) (hone '/')
    · rfl

/-- Dropping a slash at the end leaves the beginning, except that the empty path
becomes the root. -/
theorem head?_dropLastSlash (cs : List Char) :
    (dropLastSlash cs).head? = some '/' ↔ cs = [] ∨ cs.head? = some '/' := by
  match cs with
  | [] => simp [dropLastSlash]
  | [c] => simp [dropLastSlash]
  | a :: b :: rest =>
      have hfirst : (dropLastSlash (a :: b :: rest)).head? = some a := by
        show (if _ then (a :: b :: rest).dropLast else a :: b :: rest).head? = _
        split <;> rfl
      rw [hfirst, List.head?_cons, or_iff_right (List.cons_ne_nil _ _)]

theorem toList_normalize (path : String) :
    (normalize path).toList = dropLastSlash (collapse false path.toList) :=
  String.toList_ofList

/-- A normal form is in normal form. -/
theorem isNormal_normalize (path : String) :
    IsNormal (normalize path).toList := by
  rw [toList_normalize]
  exact isNormal_dropLastSlash (single_collapse false path.toList).1

/-- What is in normal form is its own normal form. -/
theorem normalize_of_isNormal (h : IsNormal path.toList) :
    normalize path = path := by
  rw [normalize, collapse_of_single (by simp) h.single,
    dropLastSlash_of_isNormal h, String.ofList_toList]

/-- A normal form begins with a slash if the path does, or is empty. -/
theorem head?_normalize (path : String) :
    (normalize path).toList.head? = some '/'
      ↔ path = "" ∨ path.toList.head? = some '/' := by
  have hempty : collapse false path.toList = [] ↔ path = "" := by
    rw [← List.head?_eq_none_iff, head?_collapse, List.head?_eq_none_iff,
      String.toList_eq_nil_iff]
  rw [toList_normalize, head?_dropLastSlash, head?_collapse, hempty]

/-- A normal form is its own normal form. -/
theorem normalize_normalize (path : String) :
    normalize (normalize path) = normalize path :=
  normalize_of_isNormal (isNormal_normalize path)

end ApiForge.Http.Path
