import ApiForge.Json.Printer
import ApiForge.Proofs.Json.Scan
import Mathlib.Data.List.TakeWhile
/-!
What is printed is read back.

Every text can be written as a string: `Json.quote` chooses an escape for each
character that needs one, and the characters are those of the text again
(`exists_atoms`). The digits of an integer are a number, and its value is the
integer as long as one machine word holds it (`Numeral.ofInt`). A value made of such
leaves is thereby the tree of a form whose text is what is printed of the value
(`exists_form`), so a reader of printed text answers the value's own tree
(`read?_compact`).
-/

namespace ApiForge.Json

open ApiForge.Text.Utf8 (encode)

-- ================================================ statement vocabulary

namespace Value

mutual

/-- Whether a value that stands in `depth` containers can be written without loss:
its numbers are integers of a machine word, and it is not too deep for a reader. -/
def Exact (depth : Nat) : Value → Prop
  | null => True
  | bool _ => True
  | int n => -(Nat.pow 2 63) ≤ n ∧ n < Nat.pow 2 64
  | float _ => False
  | str _ => True
  | arr items => depth < Text.maxDepth ∧ ExactItems (depth + 1) items
  | obj fields => depth < Text.maxDepth ∧ ExactFields (depth + 1) fields

/-- Whether the items of an array can be written without loss. -/
def ExactItems (depth : Nat) : List Value → Prop
  | [] => True
  | v :: rest => v.Exact depth ∧ ExactItems depth rest

/-- Whether the members of an object can be written without loss. -/
def ExactFields (depth : Nat) : List (String × Value) → Prop
  | [] => True
  | (_, v) :: rest => v.Exact depth ∧ ExactFields depth rest

end

end Value

-- ============================================================= strings

/-- The text of parts that are whole characters each. -/
theorem textTree_of_chars {atoms : List Atom} {cs : List Char}
    (h : List.Forall₂ (fun a c => Atom.char? a = some c) atoms cs) :
    textTree atoms = .str (String.ofList cs) := by
  -- nothing is spoilt, and no half of a character waits
  have hput {octets : List UInt8} {a : Atom} {c : Char} (ha : a.char? = some c) :
      Atom.put { octets } a = { octets := (encode [c]).reverse ++ octets } := by
    cases a with
    | plain d hd =>
        obtain rfl : d = c := Option.some.inj ha
        rfl
    | short e =>
        obtain rfl : e.char = c := Option.some.inj ha
        rfl
    | unit d₁ d₂ d₃ d₄ =>
        rw [Atom.char?] at ha
        split at ha
        · cases ha
        · rename_i hwhole
          obtain rfl := Option.some.inj ha
          rw [Atom.IsSurrogate] at hwhole
          have hhigh : ¬ (0xD800 ≤ Atom.unitOf d₁ d₂ d₃ d₄
              ∧ Atom.unitOf d₁ d₂ d₃ d₄ ≤ 0xDBFF) := by omega
          have hlow : ¬ (0xDC00 ≤ Atom.unitOf d₁ d₂ d₃ d₄
              ∧ Atom.unitOf d₁ d₂ d₃ d₄ ≤ 0xDFFF) := by omega
          simp only [Atom.put, Text.Piece.addUnit, Bool.and_eq_true, decide_eq_true_eq,
            if_neg hhigh, if_neg hlow, Text.Piece.add]
          rfl
  have hall {octets : List UInt8} :
      atoms.foldl Atom.put { octets } = { octets := (encode cs).reverse ++ octets } := by
    induction h generalizing octets with
    | nil => rfl
    | @cons a c atoms cs ha _ ih =>
        have hencode : encode ([c] ++ cs) = encode [c] ++ encode cs := List.flatMap_append
        rw [List.singleton_append] at hencode
        rw [List.foldl_cons, hput ha, ih, hencode, List.reverse_append, List.append_assoc]
  have hdecode : ApiForge.Text.Utf8.decode? (encode cs) = some cs :=
    ApiForge.Text.Utf8.decode?_eq_some_iff.2 rfl
  rw [textTree, hall]
  simp [Text.Piece.toTree, hdecode]

/-- The characters that are printed for a character are a part of a string. -/
theorem exists_atom (c : Char) : ∃ a : Atom, a.chars = escapeChar c ∧ a.char? = some c := by
  unfold escapeChar
  -- the short escapes, then the signs below the blank, then all others
  split
  · exact ⟨.short .quote, rfl, rfl⟩
  · exact ⟨.short .backslash, rfl, rfl⟩
  · exact ⟨.short .backspace, rfl, rfl⟩
  · exact ⟨.short .formFeed, rfl, rfl⟩
  · exact ⟨.short .lineFeed, rfl, rfl⟩
  · exact ⟨.short .carriageReturn, rfl, rfl⟩
  · exact ⟨.short .tab, rfl, rfl⟩
  · rename_i hquote hslash _ _ _ _ _
    split
    · rename_i hlow
      refine ⟨.unit ⟨0, false⟩ ⟨0, false⟩ ⟨⟨c.toNat / 16, by omega⟩, false⟩
        ⟨⟨c.toNat % 16, by omega⟩, false⟩, rfl, ?_⟩
      have hunit : Atom.unitOf ⟨0, false⟩ ⟨0, false⟩ ⟨⟨c.toNat / 16, by omega⟩, false⟩
          ⟨⟨c.toNat % 16, by omega⟩, false⟩ = c.toNat := by
        simp only [Atom.unitOf]
        omega
      have hwhole : ¬ Atom.IsSurrogate c.toNat := by
        rw [Atom.IsSurrogate]
        omega
      rw [Atom.char?, hunit, if_neg hwhole, Char.ofNat_toNat]
    · rename_i hlow
      exact ⟨.plain c ⟨Nat.not_lt.1 hlow, hquote, hslash⟩, rfl, rfl⟩

/-- The text that is printed for a string is one. -/
theorem exists_atoms (s : String) :
    ∃ atoms, quoted atoms = (quote s).toList ∧ textTree atoms = .str s := by
  have hall (cs : List Char) : ∃ atoms, atomChars atoms = cs.flatMap escapeChar
      ∧ List.Forall₂ (fun a c => Atom.char? a = some c) atoms cs := by
    induction cs with
    | nil => exact ⟨[], rfl, .nil⟩
    | cons c cs ih =>
        obtain ⟨a, hchars, hchar⟩ := exists_atom c
        obtain ⟨atoms, hatoms, hforall⟩ := ih
        refine ⟨a :: atoms, ?_, .cons hchar hforall⟩
        rw [atomChars, List.flatMap_cons, List.flatMap_cons, hchars, ← hatoms]
        rfl
  obtain ⟨atoms, hatoms, hforall⟩ := hall s.toList
  refine ⟨atoms, ?_, ?_⟩
  · rw [quote, String.toList_ofList, quoted, hatoms]
  · rw [textTree_of_chars hforall, String.ofList_toList]

-- ============================================================ integers

namespace Number

/-- Digits are gathered to the value that they have, if the word can hold it. -/
theorem gather_eq {ds : List Char} {word : Nat} (hds : ∀ c ∈ ds, c.isDigit = true)
    (h : Nat.ofDigitChars 10 ds word < wordLimit) :
    gather word ds = (Nat.ofDigitChars 10 ds word, 0) := by
  induction ds generalizing word with
  | nil => rfl
  | cons c ds ih =>
      obtain ⟨hc, hds⟩ := List.forall_mem_cons.1 hds
      rw [Nat.ofDigitChars_cons, Nat.mul_comm] at h ⊢
      have hnext : word * 10 + digit c < wordLimit :=
        Nat.lt_of_le_of_lt (Numeric.le_ofDigitChars ds _) h
      rw [gather, if_pos hnext]
      exact ih hds h

/-- The digits of a number do not begin with a zero, unless they are one zero. -/
theorem head_toDigits {n : Nat} (hn : 0 < n) : (Nat.toDigits 10 n).head? ≠ some '0' := by
  induction n using Nat.strongRecOn with
  | ind n ih =>
      by_cases hsmall : n < 10
      · rw [Nat.toDigits_of_lt_base hsmall]
        have hdigit : ∀ n : Fin 10, 0 < n.val → some (Nat.digitChar n) ≠ some '0' := by
          decide
        exact hdigit ⟨n, hsmall⟩ hn
      · rw [Nat.toDigits_of_base_le (by decide) (Nat.not_lt.1 hsmall),
          List.head?_append_of_ne_nil _ Nat.toDigits_ne_nil]
        exact ih (n / 10) (by omega) (by omega)

theorem isDigit_toDigits (n : Nat) : ∀ c ∈ Nat.toDigits 10 n, c.isDigit = true :=
  fun _ hc => Nat.isDigit_of_mem_toDigits (by decide) (by decide) hc

/-- The parts of an integer that is printed. -/
theorem lexeme?_digits (negative : Bool) (n : Nat) :
    lexeme? ((if negative then ['-'] else []) ++ Nat.toDigits 10 n)
      = some ⟨negative, Nat.toDigits 10 n, none, none⟩ := by
  have hall := isDigit_toDigits n
  obtain ⟨c, rest, hdigits⟩ := List.exists_cons_of_ne_nil (Nat.toDigits_ne_nil (n := n) (b := 10))
  have htake : (Nat.toDigits 10 n).takeWhile Char.isDigit = Nat.toDigits 10 n :=
    List.takeWhile_eq_self_iff.2 hall
  have hdrop : (Nat.toDigits 10 n).dropWhile Char.isDigit = [] :=
    List.dropWhile_eq_nil_iff.2 hall
  have hlead : (Nat.toDigits 10 n).length = 1 ∨ (Nat.toDigits 10 n).head? ≠ some '0' := by
    by_cases hn : n = 0
    · subst hn
      exact .inl rfl
    · exact .inr (head_toDigits (Nat.pos_of_ne_zero hn))
  -- no zero stands in front of other digits
  have hguard : (!(Nat.toDigits 10 n).isEmpty && ((Nat.toDigits 10 n).length == 1
      || (Nat.toDigits 10 n).head? != some '0')) = true := by
    simp only [hdigits, List.isEmpty_cons] at hlead ⊢
    simpa using hlead
  unfold lexeme?
  split
  rename_i sign body hparts
  obtain ⟨rfl, rfl⟩ : sign = negative ∧ body = Nat.toDigits 10 n := by
    cases negative with
    | true =>
        obtain ⟨rfl, rfl⟩ := Prod.mk.inj hparts
        exact ⟨rfl, rfl⟩
    | false =>
        rw [if_neg Bool.false_ne_true, List.nil_append] at hparts
        split at hparts
        · -- no digit is a sign
          rename_i heq
          exact absurd (hall '-' (heq ▸ List.mem_cons_self)) (by decide)
        · obtain ⟨rfl, rfl⟩ := Prod.mk.inj hparts
          exact ⟨rfl, rfl⟩
  dsimp only
  rw [htake, hdrop, guard, if_pos hguard]
  rfl

/-- The value of an integer that is printed. -/
theorem value?_digits {negative : Bool} {n : Nat} (hn : n < wordLimit)
    (hsign : negative = true → 0 < n ∧ n ≤ Nat.pow 2 63) :
    value? ⟨negative, Nat.toDigits 10 n, none, none⟩
      = some (.int (if negative then -(n : Int) else n)) := by
  have hvalue : Nat.ofDigitChars 10 (Nat.toDigits 10 n) 0 = n :=
    Nat.ofDigitChars_toDigits (by decide) (by decide)
  have hgather : gather 0 (Nat.toDigits 10 n) = (n, 0) := by
    rw [gather_eq (isDigit_toDigits n) (by rw [hvalue]; exact hn), hvalue]
  unfold value?
  simp only [hgather]
  cases negative with
  | false => rfl
  | true =>
      obtain ⟨hpos, hmost⟩ := hsign rfl
      have hpos : n ≠ 0 := by omega
      simp [hpos, hmost]

end Number

/-- The digits of an integer that a machine word holds are a number. -/
theorem exists_numeral {n : Int} (hleast : -(Nat.pow 2 63) ≤ n) (hmost : n < Nat.pow 2 64) :
    ∃ d : Numeral, d.chars = (toString n).toList ∧ d.tree = .int n := by
  have hparts (negative : Bool) (k : Nat)
      (hchars : (toString n).toList = (if negative then ['-'] else []) ++ Nat.toDigits 10 k)
      (hk : k < Number.wordLimit) (hsign : negative = true → 0 < k ∧ k ≤ Nat.pow 2 63)
      (hvalue : (if negative then -(k : Int) else k) = n) :
      ∃ d : Numeral, d.chars = (toString n).toList ∧ d.tree = .int n := by
    have hlexeme := Number.lexeme?_digits negative k
    rw [← hchars] at hlexeme
    refine ⟨⟨(toString n).toList, by rw [hlexeme]; rfl⟩, rfl, ?_⟩
    rw [Numeral.tree]
    simp only [hlexeme, Option.get_some]
    rw [Number.value?_digits hk hsign, hvalue]
    rfl
  -- a sign stands in front of negative numbers only
  by_cases hn : 0 ≤ n
  · refine hparts false n.toNat ?_ ?_ (fun h => by cases h) ?_
    · rw [Int.toString_eq_repr, Int.repr_eq_if, if_pos hn, Nat.toList_repr]
      rfl
    · rw [Number.wordLimit]
      omega
    · rw [if_neg Bool.false_ne_true]
      omega
  · refine hparts true (-n).toNat ?_ ?_ (fun _ => ?_) ?_
    · rw [Int.toString_eq_repr, Int.repr_eq_if, if_neg hn, String.toList_append, Nat.toList_repr]
      rfl
    · rw [Number.wordLimit]
      have hpow : Nat.pow 2 63 < Nat.pow 2 64 := by decide
      omega
    · omega
    · rw [if_pos rfl]
      omega

-- =============================================================== values

open Form (itemsText itemTrees membersText memberTrees)

theorem atDepth_of_lt {depth : Nat} (h : depth < Text.maxDepth) (t : Tree) :
    atDepth depth t = t :=
  if_neg (Nat.not_le.2 h)

/-- Texts with commas between them. -/
theorem toList_joined (s : String) (rest : List String) :
    (",".intercalate (s :: rest)).toList
      = s.toList ++ rest.flatMap fun s => ',' :: s.toList := by
  induction rest generalizing s with
  | nil => rw [String.intercalate_singleton, List.flatMap_nil, List.append_nil]
  | cons s' rest ih =>
      rw [String.intercalate_cons_cons, String.toList_append, String.toList_append, ih,
        List.flatMap_cons]
      simp

mutual

/-- What is printed of a value is a text of it. -/
theorem exists_form (v : Value) {depth : Nat} (h : v.Exact depth) :
    ∃ f : Form, f.text = v.compact.toList ∧ f.treeAt depth = Tree.ofValue v := by
  -- the printer follows the value, and the form is built alongside
  cases v with
  | null => exact ⟨.null, rfl, rfl⟩
  | bool b => exact ⟨.bool b, by cases b <;> rfl, rfl⟩
  | int n =>
      obtain ⟨d, hchars, htree⟩ := exists_numeral h.1 h.2
      exact ⟨.number d, hchars, htree⟩
  | float x => exact False.elim h
  | str s =>
      obtain ⟨atoms, htext, htree⟩ := exists_atoms s
      exact ⟨.string atoms, htext, htree⟩
  | arr items =>
      cases items with
      | nil => exact ⟨.noItems [], rfl, atDepth_of_lt h.1 _⟩
      | cons v rest =>
          obtain ⟨f, htext, htree⟩ := exists_form v h.2.1
          obtain ⟨slots, htexts, htrees⟩ := exists_items rest h.2.2
          refine ⟨.items { body := f } slots, ?_, ?_⟩
          · rw [Form.text, htexts, Value.compact, Value.compactItems, String.toList_append,
              String.toList_append, toList_joined, htext]
            simp [Gap.chars]
          · rw [Form.treeAt, htree, htrees, atDepth_of_lt h.1]
            rfl
  | obj fields =>
      cases fields with
      | nil => exact ⟨.noMembers [], rfl, atDepth_of_lt h.1 _⟩
      | cons e rest =>
          obtain ⟨k, v⟩ := e
          obtain ⟨atoms, hkey, hkeyTree⟩ := exists_atoms k
          obtain ⟨f, htext, htree⟩ := exists_form v h.2.1
          obtain ⟨slots, htexts, htrees⟩ := exists_members rest h.2.2
          refine ⟨.members ({ body := atoms }, { body := f }) slots, ?_, ?_⟩
          · rw [Form.text, htexts, Value.compact, Value.compactFields, String.toList_append,
              String.toList_append, toList_joined, htext, keyChars, hkey]
            simp [Gap.chars]
          · rw [Form.treeAt, htree, htrees, hkeyTree, atDepth_of_lt h.1]
            rfl

/-- What is printed of items is a text of them. -/
theorem exists_items (items : List Value) {depth : Nat} (h : Value.ExactItems depth items) :
    ∃ slots, itemsText slots = (Value.compactItems items).flatMap (fun s => ',' :: s.toList)
      ∧ itemTrees depth slots = Tree.ofItems items := by
  cases items with
  | nil => exact ⟨[], rfl, rfl⟩
  | cons v rest =>
      obtain ⟨f, htext, htree⟩ := exists_form v h.1
      obtain ⟨slots, htexts, htrees⟩ := exists_items rest h.2
      refine ⟨{ body := f } :: slots, ?_, ?_⟩
      · rw [itemsText, htexts, htext, Value.compactItems, List.flatMap_cons]
        rfl
      · rw [itemTrees, htree, htrees, Tree.ofItems]

/-- What is printed of members is a text of them. -/
theorem exists_members (fields : List (String × Value)) {depth : Nat}
    (h : Value.ExactFields depth fields) :
    ∃ slots, membersText slots = (Value.compactFields fields).flatMap (fun s => ',' :: s.toList)
      ∧ memberTrees depth slots = Tree.ofFields fields := by
  cases fields with
  | nil => exact ⟨[], rfl, rfl⟩
  | cons e rest =>
      obtain ⟨k, v⟩ := e
      obtain ⟨atoms, hkey, hkeyTree⟩ := exists_atoms k
      obtain ⟨f, htext, htree⟩ := exists_form v h.1
      obtain ⟨slots, htexts, htrees⟩ := exists_members rest h.2
      refine ⟨({ body := atoms }, { body := f }) :: slots, ?_, ?_⟩
      · rw [membersText, htexts, htext, Value.compactFields, List.flatMap_cons, keyChars, hkey]
        simp [Gap.chars]
      · rw [memberTrees, htree, htrees, hkeyTree, Tree.ofFields]

end

/-- A reader of printed text answers the tree of the value. -/
theorem read?_compact {v : Value} (h : v.Exact 0) :
    Text.read? (ApiForge.Text.Utf8.bytes v.compact) = some (Tree.ofValue v) := by
  obtain ⟨f, htext, htree⟩ := exists_form v h
  have hread := Text.read?_text [] [] f
  rw [htree, htext] at hread
  rw [ApiForge.Text.Utf8.bytes_eq, ← hread]
  simp [Gap.chars]

end ApiForge.Json
