import ApiForge.Proofs.Json.Scan
import ApiForge.Proofs.Yaml.Shared
/-!
The leaves of JSON text, read as YAML scalars.

A string is a quoted scalar: every part of it adds its character to the text that
has been read (`readQuoted_atom`). Blanks are held back until it is known that no line
ends behind them, which in a string never happens. A word or a number is a plain
scalar in flow context; the white space behind it is passed over before the comma or
the bracket ends it (`readPlain_word`).
-/

namespace ApiForge.Yaml

open Text.Utf8 (encode)
open Json (Atom Hex IsPlain atomChars quoted)

-- the equations of both readers, which every step below is taken by
attribute [local simp] readQuoted readPlain

variable {o n k : Nat} {c : Char} {text rest : List Char} {gap : Gap}

/-- The octets of a flat character are as many as the place behind it is further. -/
theorem length_encode_cons (c : Char) (cs : List Char) :
    (encode (c :: cs)).length = c.utf8Size + (encode cs).length := by
  rw [encode, List.flatMap_cons, List.length_append, String.length_utf8EncodeChar]
  rfl

-- ============================================================== strings

/-- Nothing inside a line is the edge of a document. -/
theorem atDocumentEdge_inner (hk : 0 < k) (cells : List Cell) :
    atDocumentEdge (⟨c, o, n, k⟩ :: cells) = false := by
  have hcolumn : (columnOf (⟨c, o, n, k⟩ :: cells) == 0) = false :=
    beq_eq_false_iff_ne.2 (Nat.ne_of_gt hk)
  simp only [atDocumentEdge, atIndicator, hcolumn, Bool.false_and, Bool.or_self]

/-- A character that is no blank joins the text, or leads out of it. -/
theorem readQuoted_content (hflat : Flat c) (hblank : isBlank c = false)
    (hend : isEnd c = false) (hk : 0 < k) :
    readQuoted false text gap .content (placeFrom o n k (c :: rest))
      = if c == '"' then
          some ((gap.folded ++ text).reverse, placeFrom (o + c.utf8Size) n (k + 1) rest)
        else if c == '\\' then
          readQuoted false (gap.folded ++ text) .none .escape
            (placeFrom (o + c.utf8Size) n (k + 1) rest)
        else readQuoted false (c :: (gap.folded ++ text)) .none .content
            (placeFrom (o + c.utf8Size) n (k + 1) rest) := by
  rw [placeFrom_flat hflat, readQuoted]
  simp only [hblank, hflat.1, hend, atDocumentEdge_inner hk]
  rfl

/-- A short escape adds its character. -/
theorem readQuoted_escape {e : Char} (hflat : Flat c) (he : shortEscape? c = some e) :
    readQuoted false text gap .escape (placeFrom o n k (c :: rest))
      = readQuoted false (e :: text) .none .content
          (placeFrom (o + c.utf8Size) n (k + 1) rest) := by
  rw [placeFrom_flat hflat, readQuoted]
  simp only [hflat.1, he]
  rfl

theorem hexValue?_char (h : Hex) : hexValue? h.char = some h.value.val := by
  obtain ⟨value, upper⟩ := h
  revert value upper
  decide +kernel

theorem flat_hex (h : Hex) : Flat h.char ∧ h.char.utf8Size = 1 := by
  obtain ⟨value, upper⟩ := h
  revert value upper
  decide +kernel

/-- A digit of a number, with more to come. -/
theorem readQuoted_digit (h : Hex) (value left : Nat) :
    readQuoted false text gap (.code value (left + 2)) (placeFrom o n k (h.char :: rest))
      = readQuoted false text .none (.code (value * 16 + h.value) (left + 1))
          (placeFrom (o + 1) n (k + 1) rest) := by
  rw [placeFrom_flat (flat_hex h).1, (flat_hex h).2, readQuoted]
  simp only [hexValue?_char]
  rfl

/-- The last digit of a number. -/
theorem readQuoted_last_digit (h : Hex) {value : Nat} {e : Char}
    (he : charOf? (value * 16 + h.value) = some e) :
    readQuoted false text gap (.code value 1) (placeFrom o n k (h.char :: rest))
      = readQuoted false (e :: text) .none .content
          (placeFrom (o + 1) n (k + 1) rest) := by
  rw [placeFrom_flat (flat_hex h).1, (flat_hex h).2, readQuoted]
  simp only [hexValue?_char, he]
  rfl

/-- The number of a whole character is that of a character. -/
theorem charOf?_unit (a b c d : Hex) (h : ¬ Atom.IsSurrogate (Atom.unitOf a b c d)) :
    charOf? (Atom.unitOf a b c d) = some (Char.ofNat (Atom.unitOf a b c d)) := by
  have hless : Atom.unitOf a b c d < 0x10000 := by
    rw [Atom.unitOf]
    omega
  rw [Atom.IsSurrogate] at h
  refine if_pos ?_
  rw [Nat.isValidChar]
  omega

variable (text rest) in
/-- A part of a string adds its character. What blanks are held back is no matter, as
long as they would be added before anything else. -/
theorem readQuoted_atom {a : Atom} (ha : a.Shared) (hgap : gap.hasBreak = false)
    (hk : 0 < k) :
    ∃ e text' gap', a.char? = some e ∧ gap'.hasBreak = false
      ∧ gap'.folded ++ text' = e :: (gap.folded ++ text)
      ∧ readQuoted false text gap .content (placeFrom o n k (a.chars ++ rest))
        = readQuoted false text' gap' .content
            (placeFrom (o + (encode a.chars).length) n (k + a.chars.length) rest) := by
  have hslash (rest : List Char) :
      readQuoted false text gap .content (placeFrom o n k ('\\' :: rest))
        = readQuoted false (gap.folded ++ text) .none .escape
            (placeFrom (o + 1) n (k + 1) rest) :=
    readQuoted_content (by decide) rfl rfl hk
  cases a with
  | plain c hc =>
      have ⟨hleast, hquote, hback⟩ := hc
      have hlength : (encode (Atom.plain c hc).chars).length = c.utf8Size :=
        length_encode_cons c []
      rw [hlength]
      by_cases hblank : isBlank c = true
      -- a blank is held back; it is added before what comes next
      · refine ⟨c, text, gap.addBlank c, rfl, ?_, ?_, ?_⟩
        · cases gap with
          | breaks first further => cases hgap
          | _ => rfl
        · cases gap with
          | breaks first further => cases hgap
          | _ => rfl
        · show readQuoted false text gap .content (placeFrom o n k (c :: rest)) = _
          rw [placeFrom_flat ha.2, readQuoted]
          simp only [hblank]
          rfl
      -- the end of the stream is below the characters of a string
      · have hend : isEnd c = false := by
          refine beq_eq_false_iff_ne.2 ?_
          rintro rfl
          exact absurd hleast (by decide)
        refine ⟨c, c :: (gap.folded ++ text), .none, rfl, rfl, rfl, ?_⟩
        refine (readQuoted_content ha.2 (Bool.eq_false_iff.2 hblank) hend hk).trans ?_
        rw [if_neg (mt eq_of_beq hquote), if_neg (mt eq_of_beq hback)]
        rfl
  | short e =>
      refine ⟨e.char, e.char :: (gap.folded ++ text), .none, rfl, rfl, rfl, ?_⟩
      refine (hslash _).trans ?_
      cases e <;> exact readQuoted_escape (by decide) rfl
  | unit a b c d =>
      -- an escaped unit is read digit by digit, and the last one adds the character
      have hcode : readQuoted false (gap.folded ++ text) .none .escape
            (placeFrom (o + 1) n (k + 1) ('u' :: a.char :: b.char :: c.char :: d.char :: rest))
          = readQuoted false (gap.folded ++ text) .none (.code 0 4)
              (placeFrom (o + 2) n (k + 2) (a.char :: b.char :: c.char :: d.char :: rest)) :=
        rfl
      have hchar := charOf?_unit a b c d ha
      have hlength : (encode (Atom.unit a b c d).chars).length = 6 := by
        simp only [Atom.chars, length_encode_cons, (flat_hex _).2]
        rfl
      refine ⟨_, Char.ofNat (Atom.unitOf a b c d) :: (gap.folded ++ text), .none,
        if_neg ha, rfl, rfl, ?_⟩
      refine (hslash _).trans (hcode.trans ?_)
      rw [readQuoted_digit a 0 2, Nat.zero_mul, Nat.zero_add, readQuoted_digit b _ 1,
        readQuoted_digit c _ 0, readQuoted_last_digit d hchar, hlength]
      rfl

variable (text rest) in
/-- A string up to its last quote. -/
theorem readQuoted_atoms {atoms : List Atom} (hatoms : ∀ a ∈ atoms, a.Shared)
    (hgap : gap.hasBreak = false) (hk : 0 < k) :
    ∃ k', readQuoted false text gap .content (placeFrom o n k (atomChars atoms ++ '"' :: rest))
      = some ((gap.folded ++ text).reverse ++ atoms.filterMap Atom.char?,
          placeFrom (o + (encode (atomChars atoms ++ ['"'])).length) n k' rest) := by
  -- on the parts; what was read so far and the blanks held back grow with each
  induction atoms generalizing o k text gap with
  | nil =>
      refine ⟨k + 1, ?_⟩
      rw [List.filterMap_nil, List.append_nil]
      exact readQuoted_content (by decide) rfl rfl hk
  | cons a atoms ih =>
      obtain ⟨ha, hatoms⟩ := List.forall_mem_cons.1 hatoms
      obtain ⟨e, text', gap', hchar, hgap', hfolded, hread⟩ :=
        readQuoted_atom text (atomChars atoms ++ '"' :: rest) (o := o) (n := n) ha hgap hk
      obtain ⟨k', hall⟩ := ih text' hatoms hgap' (Nat.lt_of_lt_of_le hk (Nat.le_add_right k _))
      refine ⟨k', ?_⟩
      have hencode : (encode (atomChars (a :: atoms) ++ ['"'])).length
          = (encode a.chars).length + (encode (atomChars atoms ++ ['"'])).length := by
        rw [atomChars, List.flatMap_cons, List.append_assoc, encode, List.flatMap_append,
          List.length_append]
        rfl
      have hchars : atomChars (a :: atoms) ++ '"' :: rest
          = a.chars ++ (atomChars atoms ++ '"' :: rest) := by
        rw [atomChars, List.flatMap_cons, List.append_assoc]
        rfl
      rw [hencode, ← Nat.add_assoc, hchars, hread, hall, hfolded,
        List.filterMap_cons_some hchar, List.reverse_cons, List.append_assoc]
      rfl

-- ====================================================== words and numbers

/-- The characters of null, of truth values and of numbers. -/
def isWordChar (c : Char) : Bool :=
  c.isAlphanum || c == '+' || c == '-' || c == '.'

/-- What stands in a word or number neither ends a plain scalar nor is white space. -/
theorem of_isWordChar (h : isWordChar c = true) :
    Flat c ∧ isBlank c = false ∧ isEnd c = false ∧ c ≠ ':' ∧ endsPlainInFlow c = false
      ∧ isAllowed c = true := by
  have hascii : c.toNat < 128 := by
    simp only [isWordChar, Bool.or_eq_true, beq_iff_eq] at h
    rcases h with ((h | rfl) | rfl) | rfl
    · exact ApiForge.Text.toNat_lt_of_isAlphanum h
    all_goals decide
  refine ApiForge.Text.forall_ascii (P := fun c => isWordChar c = true →
    Flat c ∧ isBlank c = false ∧ isEnd c = false ∧ c ≠ ':' ∧ endsPlainInFlow c = false
      ∧ isAllowed c = true) ?_ hascii h
  decide +kernel

/-- The characters behind a value: a comma, or the end of a list or object. -/
def isCloser (c : Char) : Bool :=
  c == ',' || c == ']' || c == '\x7d'

theorem isTokenStart_of_isCloser (h : isCloser c = true) : isTokenStart c = true := by
  simp only [isCloser, Bool.or_eq_true, beq_iff_eq] at h
  rcases h with (rfl | rfl) | rfl <;> rfl

/-- Where a value ends, whatever blanks and line ends have been passed. -/
theorem readPlain_closer (hc : isCloser c = true) :
    readPlain true 0 text gap (placeFrom o n k (c :: rest))
      = some ⟨text.reverse, placeFrom o n k (c :: rest), gap.hasBreak⟩ := by
  obtain ⟨hflat, hblank, hend, -⟩ := of_isTokenStart (isTokenStart_of_isCloser hc)
  have hends : endsPlainInFlow c = true := by
    simp only [isCloser, Bool.or_eq_true, beq_iff_eq] at hc
    rcases hc with (rfl | rfl) | rfl <;> rfl
  have hcolon : (c == ':') = false := by
    simp only [isCloser, Bool.or_eq_true, beq_iff_eq] at hc
    rcases hc with (rfl | rfl) | rfl <;> rfl
  rw [placeFrom_flat hflat, readPlain]
  simp only [hblank, hflat.1, hend, hcolon, hends, Bool.and_false, Bool.true_and,
    Bool.false_and, Bool.or_true, Bool.false_eq_true, if_false, if_true, ite_self]

/-- The white space behind a value is passed over. -/
theorem readPlain_gap (hc : isCloser c = true) (g : Json.Gap) :
    ∃ o' n' k' ended,
      readPlain true 0 text gap (placeFrom o n k (g.chars ++ c :: rest))
        = some ⟨text.reverse, placeFrom o' n' k' (c :: rest), ended⟩ := by
  obtain ⟨cells, o', n', k', hcells, hspace⟩ :=
    exists_gap_cells g (starts_cons (isTokenStart_of_isCloser hc) rest) o n k
  rw [hcells]
  clear hcells
  -- the cells of white space are only held back, and dropped at the closing character
  induction cells generalizing gap with
  | nil => exact ⟨o', n', k', _, readPlain_closer hc⟩
  | cons d cells ih =>
      obtain ⟨hd, hrest⟩ := List.forall_mem_cons.1 hspace
      have hpassed : ∃ gap', readPlain true 0 text gap
            (d :: (cells ++ placeFrom o' n' k' (c :: rest)))
          = readPlain true 0 text gap' (cells ++ placeFrom o' n' k' (c :: rest)) := by
        obtain ⟨char, _, _, _⟩ := d
        rcases hd with rfl | rfl | ⟨rfl, -⟩
        · refine ⟨gap.addBlank ' ', ?_⟩
          cases gap <;> rfl
        · exact ⟨gap.addBreak '\n', rfl⟩
        · refine ⟨gap.addBlank '\t', ?_⟩
          cases gap <;> rfl
      obtain ⟨gap', hpassed⟩ := hpassed
      rw [List.cons_append, hpassed]
      exact ih hrest

variable (text rest) in
/-- A word or number, the white space behind it included. -/
theorem readPlain_word {w : List Char} (hw : ∀ d ∈ w, isWordChar d = true)
    (hc : isCloser c = true) (g : Json.Gap) :
    ∃ o' n' k' ended,
      readPlain true 0 text .none (placeFrom o n k (w ++ (g.chars ++ c :: rest)))
        = some ⟨text.reverse ++ w, placeFrom o' n' k' (c :: rest), ended⟩ := by
  induction w generalizing o k text with
  | nil =>
      rw [List.append_nil]
      exact readPlain_gap hc g
  | cons d w ih =>
      obtain ⟨hd, hw⟩ := List.forall_mem_cons.1 hw
      obtain ⟨hflat, hblank, hend, hcolon, hends, -⟩ := of_isWordChar hd
      obtain ⟨o', n', k', ended, hread⟩ := ih (o := o + d.utf8Size) (k := k + 1)
        (d :: text) hw
      refine ⟨o', n', k', ended, ?_⟩
      rw [List.reverse_cons, List.append_assoc] at hread
      refine Eq.trans ?_ hread
      rw [List.cons_append, placeFrom_flat hflat, readPlain]
      simp only [hblank, hflat.1, hend, hends, beq_eq_false_iff_ne.2 hcolon, Gap.isEmpty,
        Bool.and_false, Bool.false_and, Bool.or_self, Bool.not_true]
      rfl

end ApiForge.Yaml
