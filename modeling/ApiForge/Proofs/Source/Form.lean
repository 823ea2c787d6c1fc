import ApiForge.Proofs.Text.Quoted
import Mathlib.Data.List.Basic
/-!
Expressions that are read back.

A `Form` says how the values of a type stand in the source, and how they are
read from it: whatever follows a printed value, reading gives back that value
and what follows. Forms are put together as expressions are, from quoted texts,
by enclosing, pairing and listing, and the law is proved once for each of these.
-/

namespace ApiForge.Source

/-- Takes a text off the front. -/
def skip (t : String) (cs : List Char) : Option (List Char) :=
  cs.dropPrefix? t.toList

theorem skip_append (t : String) (rest : List Char) :
    skip t (t.toList ++ rest) = some rest :=
  List.dropPrefix?_eq_some_iff.2 ⟨t.toList, rfl, beq_self_eq_true _⟩

/-- What begins with another character is not taken off. -/
theorem skip_of_ne {t : String} {c d : Char} {cs : List Char}
    (ht : t.toList.head? = some c) (hcs : cs.head? = some d) (h : d ≠ c) :
    skip t cs = none := by
  obtain ⟨more, ht⟩ := List.head?_eq_some_iff.1 ht
  obtain ⟨rest, rfl⟩ := List.head?_eq_some_iff.1 hcs
  rw [skip, ht, List.dropPrefix?, beq_false_of_ne h]
  rfl

/-- How values stand in the source, and how they are read. -/
structure Form (α : Type) where
  print : α → String
  read : List Char → Option (α × List Char)
  read_print : ∀ a rest, read ((print a).toList ++ rest) = some (a, rest)

namespace Form

variable {α β : Type}

/-- A text between quotes. -/
def quoted : Form String where
  print := Text.Quoted.encode
  read := Text.Quoted.read?
  read_print := Text.Quoted.read?_encode

/-- A value between two texts. -/
def enclosed (before : String) (f : Form α) (after : String) : Form α where
  print a := before ++ f.print a ++ after
  read cs := do
    let (a, cs) ← f.read (← skip before cs)
    return (a, ← skip after cs)
  read_print a rest := by
    rw [String.toList_append, String.toList_append, List.append_assoc,
      List.append_assoc, skip_append, Option.bind_eq_bind, Option.bind_some,
      f.read_print, Option.bind_eq_bind, Option.bind_some]
    dsimp only
    rw [skip_append]
    rfl

/-- Two values with a text between them. -/
def pair (f : Form α) (between : String) (g : Form β) : Form (α × β) where
  print p := f.print p.1 ++ between ++ g.print p.2
  read cs := do
    let (a, cs) ← f.read cs
    let (b, cs) ← g.read (← skip between cs)
    return ((a, b), cs)
  read_print p rest := by
    rw [String.toList_append, String.toList_append, List.append_assoc,
      List.append_assoc, f.read_print, Option.bind_eq_bind, Option.bind_some]
    dsimp only
    rw [skip_append, Option.bind_eq_bind, Option.bind_some, g.read_print]
    rfl

theorem print_enclosed (before : String) (f : Form α) (after : String)
    (a : α) : (enclosed before f after).print a = before ++ f.print a ++ after :=
  rfl

/-- Whatever is enclosed begins as the text in front does. -/
theorem head?_enclosed {before : String} {c : Char}
    (h : before.toList.head? = some c) (f : Form α) (after : String) (a : α) :
    ((enclosed before f after).print a).toList.head? = some c := by
  rw [print_enclosed, String.toList_append, String.toList_append,
    List.append_assoc, List.head?_append, h]
  rfl

-- =================================================================== lists

/-- Reads further members of a list, each behind a comma. -/
def readMore (read : List Char → Option (α × List Char)) (cs : List Char) :
    Option (List α × List Char) :=
  match skip ", " cs with
  | none => some ([], cs)
  | some inner =>
    match read inner with
    | none => none
    | some (a, rest) =>
      if rest.length < cs.length then
        (readMore read rest).map fun (l, rest) => (a :: l, rest)
      else none
termination_by cs.length

/-- Reads the members of a list and the bracket behind them. -/
def readMembers (read : List Char → Option (α × List Char)) (cs : List Char) :
    Option (List α × List Char) :=
  match skip "]" cs with
  | some rest => some ([], rest)
  | none => do
    let (a, cs) ← read cs
    let (l, cs) ← readMore read cs
    return (a :: l, ← skip "]" cs)

variable {f : Form α}

/-- Members of a list, each behind a comma. -/
def furtherMembers (f : Form α) (l : List α) : List Char :=
  l.flatMap fun a => ", ".toList ++ (f.print a).toList

/-- A list is written as its first member and the further ones, each behind a comma. -/
theorem toList_members (a : α) (l : List α) :
    (", ".intercalate ((a :: l).map f.print)).toList
      = (f.print a).toList ++ furtherMembers f l := by
  induction l generalizing a with
  | nil =>
      rw [List.map_singleton, String.intercalate_singleton, furtherMembers,
        List.flatMap_nil, List.append_nil]
  | cons b l ih =>
      have hrest := ih b
      rw [List.map_cons] at hrest
      rw [List.map_cons, List.map_cons, String.intercalate_cons_cons,
        String.toList_append, String.toList_append, hrest, furtherMembers,
        furtherMembers, List.flatMap_cons, List.append_assoc, List.append_assoc]

/-- The further members of a list are read up to the bracket. -/
theorem readMore_furtherMembers (l : List α) (rest : List Char) :
    readMore f.read (furtherMembers f l ++ ']' :: rest)
      = some (l, ']' :: rest) := by
  induction l with
  | nil =>
      rw [furtherMembers, List.flatMap_nil, List.nil_append, readMore,
        skip_of_ne (c := ',') (d := ']') (by decide) rfl (by decide)]
  | cons a l ih =>
      rw [furtherMembers] at ih
      rw [furtherMembers, List.flatMap_cons, List.append_assoc,
        List.append_assoc, readMore, skip_append]
      dsimp only
      rw [f.read_print]
      dsimp only
      rw [if_pos, ih]
      · rfl
      · have hcomma : 0 < (", ".toList).length := by decide
        simp only [List.length_append]
        omega

/-- A list between brackets. No member begins with the closing bracket. -/
def list (f : Form α)
    (hf : ∀ a, ∃ c, (f.print a).toList.head? = some c ∧ c ≠ ']') :
    Form (List α) where
  print l := "vec![" ++ ", ".intercalate (l.map f.print) ++ "]"
  read cs := (skip "vec![" cs).bind (readMembers f.read)
  read_print l rest := by
    have hclose : skip "]" (']' :: rest) = some rest := skip_append "]" rest
    have hbracket : "]".toList ++ rest = ']' :: rest := rfl
    rw [String.toList_append, String.toList_append, List.append_assoc,
      List.append_assoc, skip_append, Option.bind_some, hbracket]
    cases l with
    | nil =>
        rw [List.map_nil, String.intercalate_nil, String.toList_empty,
          List.nil_append, readMembers, hclose]
    | cons a l =>
        -- a first member is told from the end by how it begins
        obtain ⟨c, hprint, hc⟩ := hf a
        have hopen : skip "]" ((f.print a).toList
            ++ (furtherMembers f l ++ ']' :: rest)) = none := by
          refine skip_of_ne (c := ']') (d := c) (by decide) ?_ hc
          rw [List.head?_append, hprint]
          rfl
        rw [toList_members, List.append_assoc, readMembers, hopen]
        dsimp only
        rw [f.read_print, Option.bind_eq_bind, Option.bind_some]
        dsimp only
        rw [readMore_furtherMembers, Option.bind_eq_bind, Option.bind_some]
        dsimp only
        rw [hclose]
        rfl

/-- A list is printed as a literal with its members between commas. -/
theorem print_list
    (hf : ∀ a, ∃ c, (f.print a).toList.head? = some c ∧ c ≠ ']')
    (l : List α) :
    (list f hf).print l = "vec![" ++ ", ".intercalate (l.map f.print) ++ "]" :=
  rfl

end Form

end ApiForge.Source
