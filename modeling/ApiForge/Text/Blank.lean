/-!
Blank characters and what is cut at them: trimming, words, one-line text and
lines. A character is blank when it has the Unicode property White_Space;
lines end at a line feed, with or without a carriage return before it.
Consumed by the validator (blank titles), the source writer (doc comments)
and the configuration reader.
-/

namespace ApiForge.Text

-- ================================================== blank characters

/-- Whether a character has the Unicode property White_Space. -/
def isBlank (c : Char) : Bool :=
  let n := c.toNat
  (0x9 ≤ n && n ≤ 0xD) || n == 0x20 || n == 0x85 || n == 0xA0 || n == 0x1680
    || (0x2000 ≤ n && n ≤ 0x200A) || n == 0x2028 || n == 0x2029
    || n == 0x202F || n == 0x205F || n == 0x3000

/-- What core calls white space is blank. -/
theorem isBlank_of_isWhitespace {c : Char} (h : c.isWhitespace = true) :
    isBlank c = true := by
  simp only [Char.isWhitespace, Bool.or_eq_true, decide_eq_true_eq] at h
  rcases h with ((h | h) | h) | h <;> subst h <;> decide

/-- The characters after the leading blanks. -/
def trimStartChars (cs : List Char) : List Char :=
  cs.dropWhile isBlank

/-- The characters before the trailing blanks. -/
def trimEndChars (cs : List Char) : List Char :=
  (cs.reverse.dropWhile isBlank).reverse

/-- The text without leading and trailing blanks. -/
def trim (s : String) : String :=
  String.ofList (trimEndChars (trimStartChars s.toList))

/-- The text without trailing blanks. -/
def trimEnd (s : String) : String :=
  String.ofList (trimEndChars s.toList)

-- ======================================================== splitting

/-- Cuts a list at every element that satisfies `p`; the cuts are dropped, so
`n` cuts give `n + 1` pieces. -/
def splitBy {α : Type} (p : α → Bool) : List α → List (List α)
  | [] => [[]]
  | a :: rest =>
    if p a then [] :: splitBy p rest
    else
      match splitBy p rest with
      | [] => [[a]]
      | piece :: pieces => (a :: piece) :: pieces

theorem splitBy_ne_nil {α : Type} (p : α → Bool) (l : List α) : splitBy p l ≠ [] := by
  cases l with
  | nil => simp [splitBy]
  | cons a rest =>
    simp only [splitBy]
    split
    · simp
    · split <;> simp

/-- The pieces of a text between the occurrences of a character. -/
def splitAtChar (c : Char) (s : String) : List String :=
  (splitBy (· == c) s.toList).map String.ofList

/-- The non-empty stretches between blanks. -/
def words (s : String) : List String :=
  ((splitBy isBlank s.toList).filter (fun w => !w.isEmpty)).map String.ofList

/-- The words of a text with one space between them, so that it fits on a line. -/
def singleLine (s : String) : String :=
  " ".intercalate (words s)

-- ============================================================ lines

/-- A line without the carriage return that may stand before its line feed. -/
def dropReturn (cs : List Char) : List Char :=
  match cs.getLast? with
  | some '\r' => cs.dropLast
  | _ => cs

/-- The lines of a list of characters. A line ends at a line feed; a carriage
return directly before the feed belongs to the ending. Characters after the
last feed form a line of their own, kept whole. -/
def linesOfChars (cs : List Char) : List (List Char) :=
  let pieces := splitBy (· == '\n') cs
  let ended := pieces.dropLast.map dropReturn
  match pieces.getLast? with
  | some (c :: rest) => ended ++ [c :: rest]
  | _ => ended

/-- The lines of a text. -/
def lines (s : String) : List String :=
  (linesOfChars s.toList).map String.ofList

end ApiForge.Text
