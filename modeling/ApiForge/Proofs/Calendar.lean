import ApiForge.Calendar
import ApiForge.Proofs.Numeric.IntegerText
import Mathlib.Algebra.Group.Nat.Defs
import Mathlib.Data.List.TakeWhile
/-!
Dates and moments are read back from their text.

A number that is padded to a width has just that many digits, and they give the
number again (`take?_padded`), so each part of a date is cut off where it ends. A
fraction is written with three, six or nine digits and read as if it had nine; the
digits that are left out are zeros (`readFraction?_fraction`).
-/

namespace ApiForge.Calendar

-- ============================================================== digits

/-- A number with zeros in front consists of digits. -/
theorem isDigit_padded (width n : Nat) : ∀ c ∈ padded width n, c.isDigit = true := by
  intro c hc
  rcases List.mem_append.1 hc with hc | hc
  · rw [(List.mem_replicate.1 hc).2]
    rfl
  · exact Nat.isDigit_of_mem_toDigits (by decide) (by decide) hc

theorem length_padded {width n : Nat} (hwidth : 0 < width) (hn : n < 10 ^ width) :
    (padded width n).length = width := by
  have hfits := (Nat.length_toDigits_le_iff (by decide) hwidth).2 hn
  rw [padded, List.length_append, List.length_replicate]
  exact Nat.sub_add_cancel hfits

/-- The value of digits, with zeros behind them that fill up a width. -/
theorem ofDigits?_padded (width n zeros : Nat) :
    ofDigits? (padded width n ++ List.replicate zeros '0') = some (n * 10 ^ zeros) := by
  -- the digits are read from the left, as the library does, and zeros behind them
  -- multiply
  have hfold (cs : List Char) (init : Nat) :
      cs.foldl (fun n c => n * 10 + (c.toNat - '0'.toNat)) init
        = Nat.ofDigitChars 10 cs init := by
    induction cs generalizing init with
    | nil => rfl
    | cons c cs ih => rw [List.foldl_cons, ih, Nat.ofDigitChars_cons, Nat.mul_comm]
  have hzeros (k init : Nat) :
      Nat.ofDigitChars 10 (List.replicate k '0') init = init * 10 ^ k := by
    induction k generalizing init with
    | zero => rw [List.replicate_zero, Nat.ofDigitChars_nil, Nat.pow_zero, Nat.mul_one]
    | succ k ih =>
        rw [List.replicate_succ, Nat.ofDigitChars_cons, ih, Nat.pow_succ]
        show (10 * init) * 10 ^ k = init * (10 ^ k * 10)
        rw [Nat.mul_comm 10 init, Nat.mul_assoc, Nat.mul_comm 10]
  have hall : (padded width n ++ List.replicate zeros '0').all Char.isDigit = true := by
    rw [List.all_eq_true]
    intro c hc
    rcases List.mem_append.1 hc with hc | hc
    · exact isDigit_padded width n c hc
    · rw [(List.mem_replicate.1 hc).2]
      rfl
  have hne : (padded width n ++ List.replicate zeros '0').isEmpty = false := by
    rw [List.isEmpty_eq_false_iff, padded]
    simp [Nat.toDigits_ne_nil]
  rw [ofDigits?, hne, hall, hfold, padded, Nat.ofDigitChars_append, Nat.ofDigitChars_append,
    hzeros, hzeros, Nat.zero_mul, Nat.ofDigitChars_toDigits (by decide) (by decide)]
  rfl

/-- A padded number is cut off where it ends. -/
theorem take?_padded {width n : Nat} (hwidth : 0 < width) (hn : n < 10 ^ width)
    (rest : List Char) : take? width (padded width n ++ rest) = some (n, rest) := by
  have hlength := length_padded hwidth hn
  have hvalue := ofDigits?_padded width n 0
  rw [List.replicate_zero, List.append_nil, Nat.pow_zero, Nat.mul_one] at hvalue
  have hlong : width ≤ (padded width n ++ rest).length := by
    rw [List.length_append]
    omega
  rw [take?, if_pos hlong, List.take_left' hlength, List.drop_left' hlength, hvalue]
  rfl

theorem skip?_cons (c : Char) (rest : List Char) : skip? c (c :: rest) = some rest :=
  if_pos rfl

-- =============================================================== dates

/-- No month has more than 31 days. -/
theorem daysIn_le (year month : Nat) : daysIn year month ≤ 31 := by
  unfold daysIn
  split
  · split <;> decide
  · split <;> decide

theorem Date.ofNumbers?_self (d : Date) : ofNumbers? d.year d.month d.day = some d := by
  rw [ofNumbers?, dif_pos d.year_le, dif_pos d.month_bounds, dif_pos d.day_bounds]

/-- A date is read from the front of what it begins. -/
theorem Date.read?_chars (d : Date) (rest : List Char) :
    read? (d.chars ++ rest) = some (d, rest) := by
  have hyear := d.year_le
  have hmonth := d.month_bounds
  have hday := d.day_bounds
  have hdays := daysIn_le d.year d.month
  have hchars : d.chars ++ rest
      = padded 4 d.year ++ '-' :: (padded 2 d.month ++ '-' :: (padded 2 d.day ++ rest)) := by
    simp [chars]
  rw [hchars, read?, take?_padded (by decide) (by omega)]
  simp only [Option.bind_eq_bind, Option.bind_some, skip?_cons]
  rw [take?_padded (by decide) (by omega)]
  simp only [Option.bind_some, skip?_cons]
  rw [take?_padded (by decide) (by omega)]
  simp only [Option.bind_some, Date.ofNumbers?_self]
  rfl

/-- What is written of a date is read as the date. -/
theorem Date.ofText?_text (d : Date) : Date.ofText? d.text = some d := by
  have hread := d.read?_chars []
  rw [List.append_nil] at hread
  rw [ofText?, text, String.toList_ofList, hread]

-- ============================================================= moments

namespace Timestamp

/-- Digits behind a point are read as the first of nine. -/
theorem readFraction?_padded {width n : Nat} (hwidth : 0 < width) (hnine : width ≤ 9)
    (hn : n < 10 ^ width) (rest : List Char) :
    readFraction? ('.' :: (padded width n ++ 'Z' :: rest))
      = some (n * 10 ^ (9 - width), 'Z' :: rest) := by
  have hdigits := isDigit_padded width n
  have hlength := length_padded hwidth hn
  have htake : (padded width n ++ 'Z' :: rest).takeWhile Char.isDigit = padded width n := by
    rw [List.takeWhile_append_of_pos hdigits]
    simp
  have hdrop : (padded width n ++ 'Z' :: rest).dropWhile Char.isDigit = 'Z' :: rest := by
    rw [List.dropWhile_append_of_pos hdigits]
    rfl
  have hne : (padded width n).isEmpty = false := by
    rw [List.isEmpty_eq_false_iff, ← List.length_pos_iff, hlength]
    exact hwidth
  have hkept : (padded width n).take 9 = padded width n := by
    refine List.take_of_length_le ?_
    rw [hlength]
    exact hnine
  simp only [readFraction?, htake, hdrop, hkept, hlength, ofDigits?_padded, hne]
  rfl

/-- The fraction of a second is read as its nanoseconds, up to the zone. -/
theorem readFraction?_fraction {nanos : Nat} (h : nanos < 1000000000) (rest : List Char) :
    readFraction? (fraction nanos ++ 'Z' :: rest) = some (nanos, 'Z' :: rest) := by
  unfold fraction
  -- three widths are written, the shortest that loses nothing
  split
  · rename_i hzero
    rw [beq_iff_eq] at hzero
    rw [hzero]
    rfl
  split
  · rename_i hmillis
    rw [beq_iff_eq] at hmillis
    rw [List.cons_append, readFraction?_padded (by decide) (by decide) (by omega)]
    congr 2
    omega
  split
  · rename_i hmicros
    rw [beq_iff_eq] at hmicros
    rw [List.cons_append, readFraction?_padded (by decide) (by decide) (by omega)]
    congr 2
    omega
  · rw [List.cons_append, readFraction?_padded (by decide) (by decide) (by omega)]
    congr 2
    omega

theorem ofNumbers?_self (t : Timestamp) :
    ofNumbers? t.date t.hour t.minute t.second t.nanos = some t :=
  dif_pos ⟨t.hour_lt, t.minute_lt, t.second_lt, t.nanos_lt⟩

/-- What is written of a moment is read as the moment. -/
theorem ofText?_text (t : Timestamp) : ofText? t.text = some t := by
  have hhour := t.hour_lt
  have hminute := t.minute_lt
  have hsecond := t.second_lt
  rw [ofText?, text, String.toList_ofList, chars, Date.read?_chars]
  simp only [Option.bind_eq_bind, Option.bind_some, skip?_cons]
  rw [take?_padded (by decide) (by omega)]
  simp only [Option.bind_some, skip?_cons]
  rw [take?_padded (by decide) (by omega)]
  simp only [Option.bind_some, skip?_cons]
  rw [take?_padded (by decide) (by omega)]
  simp only [Option.bind_some]
  rw [readFraction?_fraction t.nanos_lt]
  simp only [Option.bind_some, skip?_cons]
  exact t.ofNumbers?_self

end Timestamp

end ApiForge.Calendar
