import ApiForge.Numeric.IntegerText
import Mathlib.Data.List.Basic
/-!
Which texts are read as a number.

Reading digits gives their value, and the value of digits determines them but for
zeros in front (`exists_zeros`). So a positive number is read from just those texts
that are its decimal form behind any zeros and at most one plus sign
(`readUnsigned_eq_ok_iff`). A signed word is read from digits behind at most one sign,
if their value is within its bounds (`readSigned_eq_ok_iff`).
-/

namespace ApiForge.Numeric

-- ================================================ statement vocabulary

/-- A numeral of a number: its decimal form, behind zeros and perhaps a plus
sign. -/
def IsNumeral (s : String) (n : Nat) : Prop :=
  ∃ sign zeros, (sign = "" ∨ sign = "+")
    ∧ s = sign ++ String.ofList (List.replicate zeros '0') ++ toString n

/-- An integer as text: digits, at least one, behind at most one sign. -/
def IsInteger (s : String) (i : Int) : Prop :=
  ∃ digits, digits ≠ [] ∧ (∀ c ∈ digits, c.isDigit = true)
    ∧ ((s.toList = digits ∨ s.toList = '+' :: digits)
          ∧ i = (Nat.ofDigitChars 10 digits 0 : Int)
      ∨ s.toList = '-' :: digits ∧ i = -(Nat.ofDigitChars 10 digits 0 : Int))

/-- A signed word of a given width as text. -/
def IsWord (width : Nat) (s : String) (i : Int) : Prop :=
  IsInteger s i ∧ -(Nat.pow 2 (width - 1) : Int) ≤ i ∧ i < (Nat.pow 2 (width - 1) : Int)

variable {limit acc n : Nat} {overflow : IntegerError} {cs : List Char}

-- ================================================================== digits

/-- A number is written in digits. -/
theorem isDigit_of_mem_toString {n : Nat} {c : Char}
    (h : c ∈ (toString n).toList) : c.isDigit = true := by
  rw [Nat.toString_eq_repr, Nat.toList_repr] at h
  exact Nat.isDigit_of_mem_toDigits (by decide) (by decide) h

theorem isDigit_iff {c : Char} :
    c.isDigit = true ↔ 48 ≤ c.toNat ∧ c.toNat ≤ 57 := by
  rw [Char.isDigit, Bool.and_eq_true, decide_eq_true_iff, decide_eq_true_iff]
  exact and_congr UInt32.le_iff_toNat_le UInt32.le_iff_toNat_le

/-- A digit is that of its distance from zero, which is less than ten. -/
theorem eq_digitChar {c : Char} (h : c.isDigit = true) :
    c.toNat - '0'.toNat < 10 ∧ (c.toNat - '0'.toNat).digitChar = c := by
  obtain ⟨hleast, hmost⟩ := isDigit_iff.1 h
  have hzero : '0'.toNat = 48 := rfl
  have hvalue : c.toNat - '0'.toNat < 10 := by omega
  refine ⟨hvalue, Char.toNat_inj.1 ?_⟩
  rw [Nat.toNat_digitChar_of_lt_ten hvalue]
  omega

/-- A decimal digit has the value of its distance from zero. -/
theorem digitValue?_ten (c : Char) :
    digitValue? 10 c
      = if c.isDigit then some (c.toNat - '0'.toNat) else none := by
  rw [digitValue?]
  by_cases hdigit : c.isDigit = true
  · rw [if_pos hdigit, if_pos (eq_digitChar hdigit).1, if_pos hdigit]
  · rw [if_neg hdigit, if_neg hdigit, if_neg]
    split
    · omega
    · split <;> omega

/-- The value of digits does not fall as they are read. -/
theorem le_ofDigitChars (cs : List Char) (acc : Nat) :
    acc ≤ Nat.ofDigitChars 10 cs acc := by
  rw [Nat.ofDigitChars_eq_ofDigitChars_zero]
  have hpow : 0 < 10 ^ cs.length := Nat.pow_pos (by decide)
  calc acc ≤ 10 ^ cs.length * acc := Nat.le_mul_of_pos_left acc hpow
    _ ≤ _ := Nat.le_add_right _ _

/-- Digits are read as their value if it is within the limit. -/
theorem readDigits_eq_ok_iff (hacc : acc ≤ limit) :
    readDigits 10 limit overflow acc cs = .ok n
      ↔ (∀ c ∈ cs, c.isDigit = true) ∧ Nat.ofDigitChars 10 cs acc = n
        ∧ n ≤ limit := by
  induction cs generalizing acc with
  | nil =>
      rw [readDigits, Nat.ofDigitChars_nil, Except.ok.injEq]
      constructor
      · rintro rfl
        exact ⟨fun c hc => absurd hc List.not_mem_nil, rfl, hacc⟩
      · exact fun h => h.2.1
  | cons c rest ih =>
      rw [readDigits, digitValue?_ten, List.forall_mem_cons,
        Nat.ofDigitChars_cons, Nat.mul_comm]
      by_cases hdigit : c.isDigit = true
      · rw [if_pos hdigit]
        dsimp only
        split
        · -- the value leaves the limit here, and does not come back
          rename_i hover
          refine iff_of_false (fun h => by cases h) ?_
          rintro ⟨-, hvalue, hn⟩
          have hgrows := le_ofDigitChars rest (10 * acc + (c.toNat - '0'.toNat))
          omega
        · rename_i hwithin
          rw [ih (Nat.le_of_not_lt hwithin)]
          simp only [hdigit, true_and]
      · rw [if_neg hdigit]
        exact iff_of_false (fun h => by cases h) fun h => hdigit h.1.1

/-- Digits behind those of a positive number make the digits of their value. -/
theorem toDigits_append (hacc : 0 < acc) (hcs : ∀ c ∈ cs, c.isDigit = true) :
    Nat.toDigits 10 acc ++ cs
      = Nat.toDigits 10 (Nat.ofDigitChars 10 cs acc) := by
  induction cs generalizing acc with
  | nil => rw [List.append_nil, Nat.ofDigitChars_nil]
  | cons c rest ih =>
      obtain ⟨hc, hrest⟩ := List.forall_mem_cons.1 hcs
      obtain ⟨hvalue, hchar⟩ := eq_digitChar hc
      have hsingle : Nat.toDigits 10 (c.toNat - '0'.toNat) = [c] := by
        rw [Nat.toDigits_of_lt_base hvalue, hchar]
      rw [List.append_cons, ← hsingle,
        Nat.toDigits_append_toDigits (by decide) hacc hvalue,
        ih (by omega) hrest, Nat.ofDigitChars_cons]

/-- Digits with a positive value are those of the value, behind zeros. -/
theorem exists_zeros (hcs : ∀ c ∈ cs, c.isDigit = true)
    (hpos : 0 < Nat.ofDigitChars 10 cs 0) :
    ∃ zeros, cs = List.replicate zeros '0'
      ++ Nat.toDigits 10 (Nat.ofDigitChars 10 cs 0) := by
  induction cs with
  | nil => exact absurd hpos (Nat.lt_irrefl 0)
  | cons c rest ih =>
      obtain ⟨hc, hrest⟩ := List.forall_mem_cons.1 hcs
      obtain ⟨hvalue, hchar⟩ := eq_digitChar hc
      rw [Nat.ofDigitChars_cons, Nat.mul_zero, Nat.zero_add] at hpos ⊢
      by_cases hzero : c.toNat - '0'.toNat = 0
      · rw [hzero] at hpos hchar ⊢
        obtain ⟨zeros, hzeros⟩ := ih hrest hpos
        refine ⟨zeros + 1, ?_⟩
        rw [List.replicate_succ, List.cons_append, ← hzeros, ← hchar]
        rfl
      · refine ⟨0, ?_⟩
        rw [← toDigits_append (Nat.pos_of_ne_zero hzero) hrest,
          Nat.toDigits_of_lt_base hvalue, hchar]
        rfl

-- ================================================================= integers

variable {least greatest i : Int} {digits : List Char}

/-- A natural number is read as an integer if it is read. -/
theorem map_ofNat_eq_ok_iff {r : Except IntegerError Nat} :
    r.map Int.ofNat = .ok i ↔ ∃ n, r = .ok n ∧ i = (n : Int) := by
  cases r with
  | error e => simp [Except.map]
  | ok n => simp [Except.map, eq_comm]

/-- Digits without a sign are limited by the greatest number alone. -/
theorem readInteger_unsigned (hne : digits ≠ []) (hdigits : ∀ c ∈ digits, c.isDigit = true) :
    readInteger 10 least greatest digits
      = (readDigits 10 greatest.toNat .tooLarge 0 digits).map Int.ofNat := by
  obtain ⟨c, rest, rfl⟩ := List.exists_cons_of_ne_nil hne
  have hdigit := hdigits c (List.mem_cons_self ..)
  have hplus : c ≠ '+' := by
    rintro rfl
    cases hdigit
  have hminus : c ≠ '-' := by
    rintro rfl
    cases hdigit
  rw [readInteger]
  all_goals simp [hplus, hminus]

/-- Digits behind a plus sign are read as if it were not there. -/
theorem readInteger_plus (hne : digits ≠ []) :
    readInteger 10 least greatest ('+' :: digits)
      = (readDigits 10 greatest.toNat .tooLarge 0 digits).map Int.ofNat := by
  obtain ⟨c, rest, rfl⟩ := List.exists_cons_of_ne_nil hne
  rfl

/-- Digits behind a minus sign are limited by the least number, which must be
negative. -/
theorem readInteger_minus (greatest : Int) (hne : digits ≠ []) :
    readInteger 10 least greatest ('-' :: digits) = .ok i
      ↔ least < 0 ∧ ∃ n, readDigits 10 (-least).toNat .tooSmall 0 digits = .ok n
        ∧ i = -(n : Int) := by
  obtain ⟨c, rest, rfl⟩ := List.exists_cons_of_ne_nil hne
  show (if least < 0 then _ else _) = _ ↔ _
  split
  · rename_i hneg
    cases readDigits 10 (-least).toNat .tooSmall 0 (c :: rest) with
    | error e => exact iff_of_false (fun h => by cases h) (by simp)
    | ok n =>
        rw [and_iff_right hneg]
        constructor
        · intro h
          cases h
          exact ⟨n, rfl, rfl⟩
        · rintro ⟨_, hn, rfl⟩
          cases hn
          rfl
  · rename_i hnonneg
    exact iff_of_false (fun h => by cases h) fun h => hnonneg h.1

/-- What is read is read from digits, which may stand behind a sign: behind a minus
sign only if negative numbers are within the bounds. -/
theorem readInteger_eq_ok_iff :
    readInteger 10 least greatest cs = .ok i
      ↔ ∃ digits n, digits ≠ []
        ∧ ((cs = digits ∨ cs = '+' :: digits)
              ∧ readDigits 10 greatest.toNat .tooLarge 0 digits = .ok n ∧ i = (n : Int)
          ∨ least < 0 ∧ cs = '-' :: digits
              ∧ readDigits 10 (-least).toNat .tooSmall 0 digits = .ok n
              ∧ i = -(n : Int)) := by
  constructor
  · intro h
    unfold readInteger at h
    split at h
    case h_4 digits hnil =>
      obtain ⟨n, hread, hi⟩ := map_ofNat_eq_ok_iff.1 h
      exact ⟨digits, n, fun h => hnil (h ▸ rfl), .inl ⟨.inr rfl, hread, hi⟩⟩
    case h_5 digits hnil =>
      have hne : digits ≠ [] := fun h => hnil (h ▸ rfl)
      obtain ⟨c, rest, rfl⟩ := List.exists_cons_of_ne_nil hne
      obtain ⟨hneg, n, hread, hi⟩ := (readInteger_minus greatest hne).1 h
      exact ⟨c :: rest, n, hne, .inr ⟨hneg, rfl, hread, hi⟩⟩
    case h_6 hne _ _ _ _ =>
      obtain ⟨n, hread, hi⟩ := map_ofNat_eq_ok_iff.1 h
      exact ⟨cs, n, hne, .inl ⟨.inl rfl, hread, hi⟩⟩
    all_goals cases h
  · rintro ⟨digits, n, hne, ⟨rfl | rfl, hread, hi⟩ | ⟨hneg, rfl, hread, hi⟩⟩
    · have hdigits := ((readDigits_eq_ok_iff (Nat.zero_le _)).1 hread).1
      rw [readInteger_unsigned hne hdigits]
      exact map_ofNat_eq_ok_iff.2 ⟨n, hread, hi⟩
    · rw [readInteger_plus hne]
      exact map_ofNat_eq_ok_iff.2 ⟨n, hread, hi⟩
    · exact (readInteger_minus greatest hne).2 ⟨hneg, n, hread, hi⟩

/-- What is not negative is read from digits, which may stand behind a plus sign. -/
theorem readNatural_eq_ok_iff :
    readInteger 10 0 greatest cs = .ok i
      ↔ ∃ digits n, digits ≠ [] ∧ (cs = digits ∨ cs = '+' :: digits)
        ∧ readDigits 10 greatest.toNat .tooLarge 0 digits = .ok n
        ∧ i = Int.ofNat n := by
  rw [readInteger_eq_ok_iff]
  simp only [Int.lt_irrefl, false_and, or_false, Int.ofNat_eq_natCast]

variable {width : Nat} {s : String}

/-- Whatever is read of an unsigned integer is written in digits and a plus
sign. -/
theorem chars_of_readUnsigned (h : readUnsigned width s = .ok i) :
    ∀ c ∈ s.toList, c.isDigit = true ∨ c = '+' := by
  obtain ⟨digits, n, -, hs, hread, -⟩ := readNatural_eq_ok_iff.1 h
  have hdigits := ((readDigits_eq_ok_iff (Nat.zero_le _)).1 hread).1
  intro c hc
  rcases hs with hs | hs <;> rw [hs] at hc
  · exact .inl (hdigits c hc)
  · exact (List.mem_cons.1 hc).symm.imp (hdigits c) id

/-- It is not negative. -/
theorem exists_nat_of_readUnsigned (h : readUnsigned width s = .ok i) :
    ∃ n : Nat, i = n := by
  obtain ⟨_, n, -, -, -, hi⟩ := readNatural_eq_ok_iff.1 h
  exact ⟨n, hi⟩

/-- A positive number is read from its numerals, and only if it is within the
bounds. -/
theorem readUnsigned_eq_ok_iff {n : Nat} (hpos : 0 < n) :
    readUnsigned width s = .ok n ↔ IsNumeral s n ∧ n < Nat.pow 2 width := by
  have hlimit : n ≤ ((Nat.pow 2 width : Int) - 1).toNat
      ↔ n < Nat.pow 2 width := by
    omega
  rw [readUnsigned, readNatural_eq_ok_iff, ← hlimit]
  constructor
  · rintro ⟨digits, n', -, hs, hread, heq⟩
    cases Int.ofNat.inj heq
    obtain ⟨hdigits, hvalue, hn⟩ := (readDigits_eq_ok_iff (Nat.zero_le _)).1 hread
    -- digits of a positive number are its own, with zeros in front
    obtain ⟨zeros, hzeros⟩ := exists_zeros hdigits (hvalue ▸ hpos)
    rw [hvalue] at hzeros
    refine ⟨?_, hn⟩
    rcases hs with hs | hs
    · refine ⟨"", zeros, .inl rfl, String.toList_inj.1 ?_⟩
      simp [hs, hzeros]
    · refine ⟨"+", zeros, .inr rfl, String.toList_inj.1 ?_⟩
      simp [hs, hzeros]
  · rintro ⟨⟨sign, zeros, hsign, rfl⟩, hn⟩
    refine ⟨List.replicate zeros '0' ++ Nat.toDigits 10 n, n, ?_, ?_, ?_, rfl⟩
    · exact List.append_ne_nil_of_right_ne_nil _ Nat.toDigits_ne_nil
    · rcases hsign with rfl | rfl <;> simp
    · refine (readDigits_eq_ok_iff (Nat.zero_le _)).2 ⟨fun c hc => ?_, ?_, hn⟩
      · rcases List.mem_append.1 hc with hc | hc
        · rw [List.eq_of_mem_replicate hc]
          rfl
        · exact Nat.isDigit_of_mem_toDigits (by decide) (by decide) hc
      · rw [Nat.ofDigitChars_append, Nat.ofDigitChars_replicate_zero,
          Nat.mul_zero, Nat.ofDigitChars_toDigits (by decide) (by decide)]

end ApiForge.Numeric
