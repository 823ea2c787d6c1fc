import ApiForge.Proofs.Json.Scan
import ApiForge.Proofs.Numeric.IntegerText
import ApiForge.Proofs.Yaml.Shared
import Mathlib.Data.List.TakeWhile
/-!
Numbers in both syntaxes.

A JSON number is an integer if it has neither point nor exponent and its digits fit a
machine word; minus zero is a float (`Number.whole_of_value?`). YAML announces other
radices by a second letter and takes padded digits for a text. A JSON number has
neither, so its digits are read as the same integer (`Numeral.shared_of_int`).
-/

namespace ApiForge

open Numeric (readInteger readInteger_minus readDigits_eq_ok_iff readNatural_eq_ok_iff)

namespace Json.Number

-- ================================================ statement vocabulary

/-- The digits of a whole number: at least one, and no leading zero. -/
structure IsWhole (ds : List Char) : Prop where
  digits : ∀ c ∈ ds, c.isDigit = true
  ne : ds ≠ []
  lead : ds.length = 1 ∨ ds.head? ≠ some '0'

variable {cs ds : List Char} {negative : Bool} {word start : Nat}

-- =========================================================== the reader

/-- What has no exponent ends behind the digits. -/
theorem eq_nil_of_readExponent (h : readExponent cs = some none) : cs = [] := by
  unfold readExponent at h
  split at h
  · rfl
  · split at h
    · split at h
      all_goals split at h <;> cases h
    · cases h

/-- What has neither point nor exponent is a sign and digits. -/
theorem whole_of_lexeme? (h : lexeme? cs = some ⟨negative, ds, none, none⟩) :
    IsWhole ds ∧ cs = if negative then '-' :: ds else ds := by
  unfold lexeme? at h
  split at h
  rename_i sign body hsign
  obtain ⟨_, hguard, h⟩ := Option.bind_eq_some_iff.1 h
  split at h
  · obtain ⟨-, -, h⟩ := Option.bind_eq_some_iff.1 h
    obtain ⟨e, -, h⟩ := Option.bind_eq_some_iff.1 h
    cases h
  · obtain ⟨e, he, h⟩ := Option.bind_eq_some_iff.1 h
    obtain ⟨rfl, rfl, -, rfl⟩ := Lexeme.mk.inj (Option.some.inj h)
    -- without point and exponent the digits are all of it
    have hbody : body.takeWhile Char.isDigit = body := by
      rw [List.takeWhile_eq_self_iff, ← List.dropWhile_eq_nil_iff]
      exact eq_nil_of_readExponent he
    rw [hbody] at hguard ⊢
    rw [guard] at hguard
    constructor
    · split at hguard
      · rename_i hlead
        rw [Bool.and_eq_true, Bool.or_eq_true, Bool.not_eq_true'] at hlead
        obtain ⟨hne, hlead⟩ := hlead
        refine ⟨List.takeWhile_eq_self_iff.1 hbody, List.isEmpty_eq_false_iff.1 hne, ?_⟩
        exact hlead.imp eq_of_beq bne_iff_ne.1
      · cases hguard
    · split at hsign
      · obtain ⟨rfl, rfl⟩ := Prod.mk.inj hsign
        rfl
      · obtain ⟨rfl, rfl⟩ := Prod.mk.inj hsign
        rfl

/-- All digits are gathered only if the word holds them. -/
theorem of_gather (hstart : start < wordLimit) (h : gather start ds = (word, 0)) :
    Nat.ofDigitChars 10 ds start = word ∧ word < wordLimit := by
  induction ds generalizing start with
  | nil =>
      obtain ⟨rfl, -⟩ := Prod.mk.inj h
      exact ⟨rfl, hstart⟩
  | cons c ds ih =>
      rw [gather] at h
      split at h
      · rename_i hnext
        rw [Nat.ofDigitChars_cons, Nat.mul_comm]
        exact ih hnext h
      · cases h

/-- What an integer is the value of. -/
theorem whole_of_value? {l : Lexeme} {i : Int} (h : value? l = some (.int i)) :
    l.fraction = none ∧ l.exponent = none ∧ ∃ word, gather 0 l.whole = (word, 0)
      ∧ if l.negative then 0 < word ∧ word ≤ Nat.pow 2 63 ∧ i = -word else i = word := by
  -- every other way through the reader ends in a floating-point number
  have hfloat {o : Option Nat} {sign : Nat → Numeric.Binary64}
      (h : o.map (fun p => Tree.float (sign p)) = some (.int i)) : False := by
    obtain ⟨p, -, h⟩ := Option.map_eq_some_iff.1 h
    cases h
  obtain ⟨negative, whole, fraction, exponent⟩ := l
  unfold value? at h
  obtain ⟨word, dropped, hgather⟩ : ∃ word dropped, gather 0 whole = (word, dropped) := ⟨_, _, rfl⟩
  simp only [hgather] at h
  split at h
  · refine ⟨rfl, rfl, ?_⟩
    split at h
    · rename_i hdropped
      refine ⟨word, hdropped ▸ hgather, ?_⟩
      cases negative with
      | false => exact Tree.int.inj (Option.some.inj h.symm)
      | true =>
          simp only [Bool.not_true, Bool.false_eq_true, if_false] at h
          split at h
          · cases h
          · rename_i hword
            rw [Bool.or_eq_true, decide_eq_true_eq, decide_eq_true_eq, not_or] at hword
            exact ⟨Nat.pos_of_ne_zero hword.1, Nat.not_lt.1 hword.2,
              Tree.int.inj (Option.some.inj h.symm)⟩
    · exact (hfloat h).elim
  · split at h
    · exact (hfloat h).elim
    · split at h
      · exact (hfloat h).elim
      · split at h <;> cases h

end Json.Number

namespace Yaml

open Json.Number (IsWhole)

variable {ds : List Char} {n : Nat}

-- ============================================================== spelling

/-- The first of the digits, and what may follow it. -/
theorem exists_lead (h : IsWhole ds) :
    ∃ c rest, ds = c :: rest ∧ c.isDigit = true ∧ (∀ d ∈ rest, d.isDigit = true)
      ∧ (c = '0' → rest = []) := by
  obtain ⟨c, rest, rfl⟩ := List.exists_cons_of_ne_nil h.ne
  obtain ⟨hc, hrest⟩ := List.forall_mem_cons.1 h.digits
  refine ⟨c, rest, rfl, hc, hrest, ?_⟩
  rintro rfl
  rcases h.lead with hlength | hhead
  · exact List.eq_nil_of_length_eq_zero (Nat.succ.inj hlength)
  · exact absurd rfl hhead

/-- Digits announce no radix. -/
theorem radixOf?_digits (h : IsWhole ds) : radixOf? ds = none := by
  obtain ⟨c, rest, rfl, -, -, hzero⟩ := exists_lead h
  by_cases hc : c = '0'
  · rw [hzero hc, hc]
    rfl
  · unfold radixOf?
    split
    all_goals first | rfl | exact absurd (List.cons.inj ‹_›).1 hc

/-- Digits do not begin with a sign. -/
theorem startsWithSign_digits (h : IsWhole ds) : startsWithSign ds = false := by
  obtain ⟨c, rest, rfl, hc, -⟩ := exists_lead h
  rw [startsWithSign, Bool.or_eq_false_iff]
  constructor
  all_goals
    rw [beq_eq_false_iff_ne]
    rintro rfl
    cases hc

/-- Digits that JSON takes are not padded with zeros. -/
theorem isPaddedNumber_digits (h : IsWhole ds) : isPaddedNumber ds = false := by
  have hsign := startsWithSign_digits h
  obtain ⟨c, rest, rfl, -, -, hzero⟩ := exists_lead h
  unfold isPaddedNumber
  rw [hsign]
  by_cases hc : c = '0'
  · rw [hzero hc, hc]
    rfl
  · dsimp only [Bool.false_eq_true, if_false]
    split
    · exact absurd (List.cons.inj ‹_›).1 hc
    · rfl

theorem isPaddedNumber_minus (h : IsWhole ds) : isPaddedNumber ('-' :: ds) = false := by
  rw [← isPaddedNumber_digits h, isPaddedNumber, isPaddedNumber, startsWithSign_digits h]
  rfl

/-- Digits are read as their value. -/
theorem readInteger_digits {greatest : Int} (h : IsWhole ds)
    (hvalue : Nat.ofDigitChars 10 ds 0 = n) (hn : n ≤ greatest.toNat) :
    readInteger 10 0 greatest ds = .ok n :=
  readNatural_eq_ok_iff.2 ⟨ds, n, h.ne, .inl rfl,
    (readDigits_eq_ok_iff (Nat.zero_le _)).2 ⟨h.digits, hvalue, hn⟩, rfl⟩

/-- Digits are read as their value, up to the greatest one. -/
theorem naturalOf?_digits {greatest : Int} (h : IsWhole ds)
    (hvalue : Nat.ofDigitChars 10 ds 0 = n) (hn : n ≤ greatest.toNat) :
    naturalOf? greatest ds = some (n : Int) := by
  have hsign := startsWithSign_digits h
  have hbody : naturalOf? greatest ds
      = (readInteger 10 0 greatest ds).toOption := by
    unfold naturalOf?
    split
    · cases hsign
    · dsimp only
      rw [radixOf?_digits h, hsign, isPaddedNumber_digits h]
      rfl
  rw [hbody, readInteger_digits h hvalue hn]
  rfl

/-- Digits behind a minus are read as the negative value, down to the least one. -/
theorem negativeOf?_digits {least greatest : Int} (h : IsWhole ds)
    (hvalue : Nat.ofDigitChars 10 ds 0 = n) (hleast : least < 0) (hn : n ≤ (-least).toNat) :
    negativeOf? least greatest ('-' :: ds) = some (-(n : Int)) := by
  have hread : readInteger 10 least greatest ('-' :: ds) = .ok (-(n : Int)) :=
    (readInteger_minus greatest h.ne).2 ⟨hleast, n,
      (readDigits_eq_ok_iff (Nat.zero_le _)).2 ⟨h.digits, hvalue, hn⟩, rfl⟩
  simp only [negativeOf?, radixOf?_digits h, isPaddedNumber_minus h, hread]
  rfl

/-- Neither sign stands in front of digits with a minus sign. -/
theorem naturalOf?_minus (greatest : Int) (ds : List Char) :
    naturalOf? greatest ('-' :: ds) = none :=
  rfl

/-- Digits of an unsigned word are an integer. -/
theorem integerOf?_digits (h : IsWhole ds) (hvalue : Nat.ofDigitChars 10 ds 0 = n)
    (hn : n < Nat.pow 2 64) : integerOf? ds = some (.int n) := by
  have hnatural : naturalOf? (Nat.pow 2 64 - 1) ds = some (n : Int) :=
    naturalOf?_digits h hvalue (by omega)
  have hsign : (ds.head? == some '-') = false := by
    obtain ⟨c, rest, rfl, hc, -⟩ := exists_lead h
    rw [beq_eq_false_iff_ne]
    rintro hminus
    rw [Option.some.inj hminus] at hc
    cases hc
  rw [integerOf?, hnatural, hsign]
  dsimp only [Option.or]
  rw [Bool.and_false]
  rfl

/-- Digits behind a minus are an integer where a signed word holds it. -/
theorem integerOf?_minus (h : IsWhole ds) (hvalue : Nat.ofDigitChars 10 ds 0 = n)
    (hpos : 0 < n) (hn : n ≤ Nat.pow 2 63) :
    integerOf? ('-' :: ds) = some (.int (-(n : Int))) := by
  have hnegative : negativeOf? (-(Nat.pow 2 63)) (Nat.pow 2 63 - 1) ('-' :: ds)
      = some (-(n : Int)) :=
    negativeOf?_digits h hvalue (by decide) (by omega)
  have hne : (-(n : Int)) ≠ 0 := by omega
  rw [integerOf?, naturalOf?_minus, hnegative]
  dsimp only [Option.or]
  rw [decide_eq_false hne]
  rfl

end Yaml

namespace Json

/-- The value of a number is a number. -/
theorem number_of_value? {e : Number.Lexeme} {t : Tree} (h : Number.value? e = some t) :
    (∃ i, t = .int i) ∨ ∃ x, t = .float x := by
  have hfloat {o : Option Nat} {sign : Nat → Numeric.Binary64}
      (h : o.map (fun p => Tree.float (sign p)) = some t) : ∃ x, t = .float x := by
    obtain ⟨p, -, rfl⟩ := Option.map_eq_some_iff.1 h
    exact ⟨_, rfl⟩
  unfold Number.value? at h
  dsimp only at h
  split at h
  · split at h
    · split at h
      · exact .inl ⟨_, (Option.some.inj h).symm⟩
      · split at h
        · exact .inr ⟨_, (Option.some.inj h).symm⟩
        · exact .inl ⟨_, (Option.some.inj h).symm⟩
    · exact .inr (hfloat h)
  · split at h
    · exact .inr (hfloat h)
    · split at h
      · exact .inr (hfloat h)
      · split at h
        · cases h
        · exact .inr ⟨_, (Option.some.inj h).symm⟩

/-- A number is an integer, a floating-point number, or not readable. -/
theorem Numeral.tree_eq (n : Numeral) :
    (∃ i, n.tree = .int i) ∨ (∃ x, n.tree = .float x) ∨ n.tree = .unreadable := by
  rw [Numeral.tree]
  cases hvalue : Number.value? ((Number.lexeme? n.chars).get n.isNumber) with
  | none => exact .inr (.inr rfl)
  | some t =>
      rcases number_of_value? hvalue with ⟨i, rfl⟩ | ⟨x, rfl⟩
      · exact .inl ⟨i, rfl⟩
      · exact .inr (.inl ⟨x, rfl⟩)

/-- No word is a number. -/
theorem Numeral.ne_word (n : Numeral) (s : String)
    (hs : (Number.lexeme? s.toList).isSome = false) : (String.ofList n.chars == s) = false := by
  rw [beq_eq_false_iff_ne]
  rintro rfl
  have hnumber := n.isNumber
  rw [String.toList_ofList] at hs
  rw [hs] at hnumber
  cases hnumber

/-- A number is not spelt like null. -/
theorem Numeral.written (n : Numeral) :
    ((String.ofList n.chars).isEmpty || Yaml.isNullWord (String.ofList n.chars)) = false := by
  have hempty : (String.ofList n.chars).isEmpty = false := by
    rw [Bool.eq_false_iff]
    exact fun h => beq_eq_false_iff_ne.1 (n.ne_word "" rfl) (String.isEmpty_iff.1 h)
  rw [hempty, Yaml.isNullWord, n.ne_word "~" rfl, n.ne_word "null" rfl, n.ne_word "Null" rfl,
    n.ne_word "NULL" rfl]
  rfl

/-- Nor like a truth value. -/
theorem Numeral.boolOf? (n : Numeral) : Yaml.boolOf? (String.ofList n.chars) = none := by
  rw [Yaml.boolOf?, n.ne_word "true" rfl, n.ne_word "True" rfl, n.ne_word "TRUE" rfl,
    n.ne_word "false" rfl, n.ne_word "False" rfl, n.ne_word "FALSE" rfl]
  rfl

/-- A number that is an integer in JSON is the same integer in YAML. -/
theorem Numeral.shared_of_int {n : Numeral} {i : Int} (h : n.tree = .int i) :
    n.Shared := by
  obtain ⟨l, hl⟩ := Option.isSome_iff_exists.1 n.isNumber
  have hvalue : Number.value? l = some (.int i) := by
    simp only [Numeral.tree, hl, Option.get_some] at h
    cases hvalue : Number.value? l with
    | none => rw [hvalue] at h; cases h
    | some t => rw [hvalue] at h; exact congrArg some h
  obtain ⟨hfraction, hexponent, word, hgather, hi⟩ := Number.whole_of_value? hvalue
  obtain ⟨negative, ds, fraction, exponent⟩ := l
  dsimp only at hfraction hexponent hgather hi
  subst hfraction hexponent
  obtain ⟨hwhole, hchars⟩ := Number.whole_of_lexeme? hl
  obtain ⟨hdigits, hword⟩ := Number.of_gather (by decide) hgather
  -- both readers take the same digits; only the sign and the range decide
  have hinteger : Yaml.integerOf? n.chars = some (.int i) := by
    rw [hchars]
    cases negative with
    | false =>
        obtain rfl : i = word := hi
        exact Yaml.integerOf?_digits hwhole hdigits hword
    | true =>
        obtain ⟨hpos, hmost, rfl⟩ : 0 < word ∧ word ≤ Nat.pow 2 63 ∧ i = -word := hi
        exact Yaml.integerOf?_minus hwhole hdigits hpos hmost
  right
  rw [Yaml.typed, n.written, if_neg Bool.false_ne_true, n.boolOf?, String.toList_ofList, hinteger,
    h]

end Json

end ApiForge
