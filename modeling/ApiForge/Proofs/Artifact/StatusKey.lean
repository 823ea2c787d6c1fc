import ApiForge.Proofs.Artifact.Sections
import ApiForge.Proofs.Numeric.IntegerText
import ApiForge.Proofs.Text.Ascii
import Mathlib.Tactic.IntervalCases
/-!
The keys of answers, and the variants that are named after them.

A key stands for a code if it is a numeral of one, or a range such as `4XX`, which
stands for its first code (`statusOf?_eq_some_iff`). A numeral may have zeros in
front, and a plus sign in front of these. The variant is named after the key as it
is written, in upper case: so the plus sign gets into the name, which is then no
identifier (`isIdentifier_nameOf`), and the two ways to write a range give one name
(`upperKey_eq_iff`).
-/

namespace ApiForge

open Numeric (IsNumeral)

-- ================================================ statement vocabulary

namespace ResponseVariant

/-- A key that is a code. -/
def IsCode (key : String) (n : Nat) : Prop :=
  IsNumeral key n ∧ 100 ≤ n ∧ n ≤ 599

/-- A key that is a range of codes, of which the first is given. -/
def IsRange (key : String) (n : Nat) : Prop :=
  ∃ k x y, key = toString k ++ String.ofList [x, y] ∧ 1 ≤ k ∧ k ≤ 5
    ∧ (x = 'x' ∨ x = 'X') ∧ (y = 'x' ∨ y = 'X') ∧ n = 100 * k

/-- A key stands for a code: it is this code, or a range with this code first. -/
def StandsFor (key : String) (n : Nat) : Prop :=
  IsCode key n ∨ IsRange key n

/-- Two keys that are the same range. -/
def SameRange (key key' : String) : Prop :=
  ∃ n, IsRange key n ∧ IsRange key' n

end ResponseVariant

/-- An identifier of the target language that is written in ASCII. -/
structure Identifier.IsIdentifier (name : String) : Prop where
  start : ∃ c, name.toList.head? = some c ∧ (c.isAlpha = true ∨ c = '_')
  chars : ∀ c ∈ name.toList, c.isAlphanum = true ∨ c = '_'
  nonblank : name ≠ "_"
  free : name ∉ Identifier.keywords

/-- The name of the variant for a key. -/
def ResponseVariant.nameOf (key : String) : String :=
  "Status" ++ upperKey key

/-- The keys of answers that stand for codes, in order and with these codes. -/
inductive Response.Answered :
    Table (Referable Response) → List (String × Nat) → Prop
  | nil : Answered [] []
  | variant {key : String} {n : Nat} {entry : Referable Response}
      {rest : Table (Referable Response)} {answered : List (String × Nat)}
      (stands : ResponseVariant.StandsFor key n) (others : Answered rest answered) :
      Answered ((key, entry) :: rest) ((key, n) :: answered)
  | skip {key : String} {entry : Referable Response}
      {rest : Table (Referable Response)} {answered : List (String × Nat)}
      (stands : ∀ n, ¬ ResponseVariant.StandsFor key n)
      (others : Answered rest answered) :
      Answered ((key, entry) :: rest) answered

-- ================================================================== keys

namespace ResponseVariant

variable {key : String} {n : Nat}

/-- The letter of a range stands in either case. -/
theorem toUpper_eq_X {c : Char} : c.toUpper = 'X' ↔ c = 'x' ∨ c = 'X' := by
  constructor
  · exact fun h => (Text.eq_or_eq_toLower h).symm
  · rintro (rfl | rfl) <;> rfl

/-- Only a plus sign is a plus sign in upper case. -/
theorem toUpper_eq_plus {c : Char} : c.toUpper = '+' ↔ c = '+' := by
  constructor
  · intro h
    exact (Text.eq_or_eq_toLower h).elim id id
  · rintro rfl
    rfl

theorem bounds_of_class {k : Char} (hleast : '1' ≤ k) (hmost : k ≤ '5') :
    49 ≤ k.toNat ∧ k.toNat ≤ 53 ∧ k.isDigit = true := by
  have hone : 49 ≤ k.toNat := UInt32.le_iff_toNat_le.1 hleast
  have hfive : k.toNat ≤ 53 := UInt32.le_iff_toNat_le.1 hmost
  exact ⟨hone, hfive, Numeric.isDigit_iff.2 ⟨by omega, by omega⟩⟩

/-- The first character of a range, and what stands behind it. -/
theorem isRange_iff : IsRange key n ↔ ∃ k x y, key.toList = [k, x, y]
    ∧ '1' ≤ k ∧ k ≤ '5' ∧ x.toUpper = 'X' ∧ y.toUpper = 'X'
    ∧ n = (k.toNat - '0'.toNat) * 100 := by
  simp only [toUpper_eq_X]
  constructor
  · rintro ⟨k, x, y, rfl, hleast, hmost, hx, hy, rfl⟩
    have hk : Nat.toDigits 10 k = [k.digitChar] :=
      Nat.toDigits_of_lt_base (by omega)
    refine ⟨k.digitChar, x, y, by simp [hk], ?_, ?_, hx, hy, ?_⟩
    all_goals interval_cases k <;> decide
  · rintro ⟨k, x, y, hkey, hleast, hmost, hx, hy, rfl⟩
    obtain ⟨hone, hfive, hdigit⟩ := bounds_of_class hleast hmost
    obtain ⟨hvalue, hchar⟩ := Numeric.eq_digitChar hdigit
    have hzero : '0'.toNat = 48 := rfl
    refine ⟨k.toNat - '0'.toNat, x, y, String.toList_inj.1 ?_, by omega,
      by omega, hx, hy, Nat.mul_comm _ _⟩
    rw [String.toList_append, String.toList_ofList, Nat.toString_eq_repr,
      Nat.toList_repr, Nat.toDigits_of_lt_base hvalue, hchar, hkey]
    rfl

/-- A range is no code. -/
theorem not_ok_of_isRange (h : IsRange key n) (i : Int) :
    Numeric.readUnsigned 16 key ≠ .ok i := by
  obtain ⟨k, x, y, rfl, -, -, hx, -⟩ := h
  intro hread
  have hchar := Numeric.chars_of_readUnsigned hread x (by simp)
  rcases hx with rfl | rfl <;> exact absurd hchar (by decide)

/-- A code is a number from 100 to 599 that is read as such. -/
theorem isCode_iff : IsCode key n
    ↔ Numeric.readUnsigned 16 key = .ok n ∧ 100 ≤ n ∧ n ≤ 599 := by
  have hwidth : Nat.pow 2 16 = 65536 := rfl
  refine and_congr_left fun ⟨hleast, hmost⟩ => ?_
  rw [Numeric.readUnsigned_eq_ok_iff (by omega)]
  exact (and_iff_left (by omega)).symm

/-- What is read as a number counts if it is a code. -/
theorem statusOf?_of_ok {i : Int} (h : Numeric.readUnsigned 16 key = .ok i) :
    statusOf? key = some n ↔ IsCode key n := by
  obtain ⟨m, rfl⟩ := Numeric.exists_nat_of_readUnsigned h
  have hsame : (Except.ok (m : Int) : Except Numeric.IntegerError Int)
      = .ok n ↔ m = n := by
    rw [Except.ok.injEq, Int.natCast_inj]
  rw [isCode_iff, statusOf?, h, hsame]
  simp only [Bool.and_eq_true, decide_eq_true_iff]
  split
  · rename_i hwithin
    rw [Option.some.injEq, Int.toNat_natCast]
    constructor
    · rintro rfl
      exact ⟨rfl, by omega, by omega⟩
    · exact And.left
  · rename_i hoff
    refine iff_of_false (fun h => by cases h) ?_
    rintro ⟨rfl, hleast, hmost⟩
    omega

/-- What is not read as a number counts if it is a range. -/
theorem statusOf?_of_error {e : Numeric.IntegerError}
    (h : Numeric.readUnsigned 16 key = .error e) :
    statusOf? key = some n ↔ IsRange key n := by
  rw [isRange_iff, statusOf?, h]
  simp only [Bool.and_eq_true, decide_eq_true_iff, beq_iff_eq]
  -- three signs, of which the first is in bounds and the others are the same letter
  split
  · rename_i k x y hkey
    split
    · rename_i hrange
      obtain ⟨⟨⟨hleast, hmost⟩, hx⟩, hy⟩ := hrange
      rw [Option.some.injEq]
      constructor
      · rintro rfl
        exact ⟨k, x, y, hkey, hleast, hmost, hx, hy, rfl⟩
      · rintro ⟨k', x', y', hkey', -, -, -, -, rfl⟩
        rw [hkey, List.cons.injEq] at hkey'
        rw [hkey'.1]
    · rename_i hother
      refine iff_of_false (fun h => by cases h) ?_
      rintro ⟨k', x', y', hkey', hleast, hmost, hx, hy, -⟩
      rw [hkey] at hkey'
      cases hkey'
      exact hother ⟨⟨⟨hleast, hmost⟩, hx⟩, hy⟩
  · rename_i hother
    refine iff_of_false (fun h => by cases h) ?_
    rintro ⟨k, x, y, hkey, -⟩
    exact hother k x y hkey

/-- The code that is found for a key is the one that it stands for. -/
theorem statusOf?_eq_some_iff : statusOf? key = some n ↔ StandsFor key n := by
  rw [StandsFor]
  cases hread : Numeric.readUnsigned 16 key with
  | ok i =>
      rw [statusOf?_of_ok hread,
        or_iff_left fun hrange => not_ok_of_isRange hrange i hread]
  | error e =>
      have hcode : ¬ IsCode key n := by
        rw [isCode_iff, hread]
        exact fun h => by cases h.1
      rw [statusOf?_of_error hread, or_iff_right hcode]

-- ================================================================== names

/-- A digit is the same in upper case. -/
theorem toUpper_of_isDigit {c : Char} (h : c.isDigit = true) :
    c.toUpper = c := by
  refine dif_neg ?_
  rintro ⟨hletter, -⟩
  have hle : 97 ≤ c.toNat := UInt32.le_iff_toNat_le.1 hletter
  have hdigit := (Numeric.isDigit_iff.1 h).2
  omega

theorem toList_upperKey (key : String) :
    (upperKey key).toList = key.toList.map Char.toUpper := by
  rw [upperKey, String.toList_ofList]

/-- A code is written in digits and a plus sign. -/
theorem chars_of_isCode (h : IsCode key n) :
    ∀ c ∈ key.toList, c.isDigit = true ∨ c = '+' :=
  Numeric.chars_of_readUnsigned (isCode_iff.1 h).1

/-- A code has no letters. -/
theorem upperKey_of_isCode (h : IsCode key n) : upperKey key = key := by
  rw [← String.toList_inj, toList_upperKey]
  refine List.map_congr_left (fun c hc => ?_) |>.trans (List.map_id _)
  rcases chars_of_isCode h c hc with hdigit | rfl
  · exact toUpper_of_isDigit hdigit
  · rfl

/-- A range is named by a digit and two letters. -/
theorem upperKey_of_isRange (h : IsRange key n) :
    ∃ k, (upperKey key).toList = [k, 'X', 'X'] ∧ k.isDigit = true
      ∧ n = (k.toNat - '0'.toNat) * 100 := by
  obtain ⟨k, x, y, hkey, hleast, hmost, hx, hy, rfl⟩ := isRange_iff.1 h
  have hdigit := (bounds_of_class hleast hmost).2.2
  refine ⟨k, ?_, hdigit, rfl⟩
  rw [toList_upperKey, hkey]
  simp [hx, hy, toUpper_of_isDigit hdigit]

/-- A code is not named like a range. -/
theorem upperKey_ne_of_isCode {key' : String} {n' : Nat} (h : IsCode key n)
    (h' : IsRange key' n') : upperKey key ≠ upperKey key' := by
  intro heq
  obtain ⟨k, hlist, -⟩ := upperKey_of_isRange h'
  rw [upperKey_of_isCode h] at heq
  have hmem : 'X' ∈ key.toList := by
    rw [heq, hlist]
    simp
  exact absurd (chars_of_isCode h 'X' hmem) (by decide)

/-- Variants have the same name just when their keys are the same, or the same
range. -/
theorem upperKey_eq_iff {key' : String} {n' : Nat} (h : StandsFor key n)
    (h' : StandsFor key' n') :
    upperKey key = upperKey key' ↔ key = key' ∨ SameRange key key' := by
  -- two ranges of one class differ at most in the case of their letters
  have hrange {m : Nat} (hr : IsRange key m) (hr' : IsRange key' m) :
      upperKey key = upperKey key' := by
    obtain ⟨k, hk, hdigit, rfl⟩ := upperKey_of_isRange hr
    obtain ⟨k', hk', hdigit', hsame⟩ := upperKey_of_isRange hr'
    have hclass : k = k' := by
      rw [← (Numeric.eq_digitChar hdigit).2, ← (Numeric.eq_digitChar hdigit').2]
      exact congrArg _ (Nat.eq_of_mul_eq_mul_right (by decide) hsame)
    rw [← String.toList_inj, hk, hk', hclass]
  constructor
  · intro heq
    -- codes are their own upper case, and no range becomes a code
    rcases h with h | h <;> rcases h' with h' | h'
    · rw [upperKey_of_isCode h, upperKey_of_isCode h'] at heq
      exact .inl heq
    · exact absurd heq (upperKey_ne_of_isCode h h')
    · exact absurd heq.symm (upperKey_ne_of_isCode h' h)
    · obtain ⟨k, hk, -, rfl⟩ := upperKey_of_isRange h
      obtain ⟨k', hk', -, rfl⟩ := upperKey_of_isRange h'
      rw [heq, hk'] at hk
      cases hk
      exact .inr ⟨_, h, h'⟩
  · rintro (rfl | ⟨m, hr, hr'⟩)
    · rfl
    · exact hrange hr hr'

/-- What a variant is named with: digits, letters of ranges and a plus sign. -/
theorem chars_of_upperKey (h : StandsFor key n) :
    ∀ c ∈ (upperKey key).toList, c.isDigit = true ∨ c = 'X' ∨ c = '+' := by
  intro c hc
  rcases h with h | h
  · rw [upperKey_of_isCode h] at hc
    exact (chars_of_isCode h c hc).imp_right .inr
  · obtain ⟨k, hk, hdigit, -⟩ := upperKey_of_isRange h
    rw [hk] at hc
    simp only [List.mem_cons, List.not_mem_nil, or_false] at hc
    rcases hc with rfl | rfl | rfl
    · exact .inl hdigit
    · exact .inr (.inl rfl)
    · exact .inr (.inl rfl)

/-- Names of variants are written in letters, digits and a plus sign. -/
theorem chars_of_nameOf (h : StandsFor key n) :
    ∀ c ∈ (nameOf key).toList, c.isAlphanum = true ∨ c = '+' := by
  have hstatus : ∀ c ∈ "Status".toList, c.isAlphanum = true :=
    List.all_eq_true.1 rfl
  intro c hc
  rw [nameOf, String.toList_append, List.mem_append] at hc
  rcases hc with hc | hc
  · exact .inl (hstatus c hc)
  · rcases chars_of_upperKey h c hc with hdigit | rfl | rfl
    · exact .inl (by simp [Char.isAlphanum, hdigit])
    · exact .inl (by decide)
    · exact .inr rfl

/-- A plus sign in a name is that of the key. -/
theorem plus_mem_nameOf : '+' ∈ (nameOf key).toList ↔ '+' ∈ key.toList := by
  have hstatus : '+' ∉ "Status".toList := by decide
  rw [nameOf, String.toList_append, List.mem_append, or_iff_right hstatus,
    toList_upperKey, List.mem_map]
  simp only [toUpper_eq_plus, exists_eq_right]

/-- The name of a variant is an identifier unless its key has a plus sign. -/
theorem isIdentifier_nameOf (h : StandsFor key n) :
    Identifier.IsIdentifier (nameOf key) ↔ '+' ∉ key.toList := by
  have hkeywords : ∀ k ∈ Identifier.keywords,
      k.toList.take 6 ≠ "Status".toList := by
    decide
  have hname : (nameOf key).toList = "Status".toList ++ (upperKey key).toList :=
    String.toList_append
  have hfront : (nameOf key).toList.take 6 = "Status".toList := by
    rw [hname]
    rfl
  rw [← plus_mem_nameOf]
  constructor
  · intro hident hmem
    exact absurd (hident.chars '+' hmem) (by decide)
  · intro hplus
    refine ⟨⟨'S', by rw [hname]; rfl, .inl (by decide)⟩, fun c hc => ?_, ?_, ?_⟩
    · refine .inl ((chars_of_nameOf h c hc).resolve_right ?_)
      rintro rfl
      exact hplus hc
    · intro hblank
      rw [hblank] at hfront
      exact absurd hfront (by decide)
    · exact fun hmem => hkeywords _ hmem hfront

/-- Names of variants differ just when no key is given twice or in both ways. -/
theorem nodup_names {answered : List (String × Nat)}
    (h : ∀ a ∈ answered, StandsFor a.1 a.2) :
    (answered.map fun a => nameOf a.1).Nodup
      ↔ answered.Pairwise fun a b => a.1 ≠ b.1 ∧ ¬ SameRange a.1 b.1 := by
  rw [List.Nodup, List.pairwise_map]
  refine List.Pairwise.iff_of_mem fun {a b} ha hb => ?_
  rw [nameOf, nameOf, ne_eq, String.append_right_inj,
    upperKey_eq_iff (h a ha) (h b hb), not_or]

end ResponseVariant

/-- The variants are those of the keys that are answered. -/
theorem Response.exists_answered (answers : Table (Referable Response)) :
    ∃ answered, Answered answers answered
      ∧ variants answers
        = answered.map fun a => (ResponseVariant.nameOf a.1, a.2) := by
  induction answers with
  | nil => exact ⟨[], .nil, rfl⟩
  | cons e rest ih =>
      obtain ⟨key, entry⟩ := e
      obtain ⟨answered, hanswered, hvariants⟩ := ih
      rw [variants] at hvariants ⊢
      cases hstatus : ResponseVariant.statusOf? key with
      | none =>
          refine ⟨answered, .skip (fun n hn => ?_) hanswered, ?_⟩
          · rw [ResponseVariant.statusOf?_eq_some_iff.2 hn] at hstatus
            cases hstatus
          · rw [List.filterMap_cons_none (by simp [hstatus]), hvariants]
      | some n =>
          refine ⟨(key, n) :: answered, .variant
            (ResponseVariant.statusOf?_eq_some_iff.1 hstatus) hanswered, ?_⟩
          rw [List.filterMap_cons_some (by simp [hstatus]; rfl), hvariants]
          rfl

/-- Each answer that counts stands for its status. -/
theorem Response.Answered.stands {answers : Table (Referable Response)}
    {answered : List (String × Nat)} (h : Answered answers answered) :
    ∀ a ∈ answered, ResponseVariant.StandsFor a.1 a.2 := by
  induction h with
  | nil => exact fun a ha => absurd ha List.not_mem_nil
  | variant stands _ ih => exact List.forall_mem_cons.2 ⟨stands, ih⟩
  | skip _ _ ih => exact ih

/-- Which keys are answered is found by their codes. -/
theorem Response.Answered.eq_filterMap {answers : Table (Referable Response)}
    {answered : List (String × Nat)} (h : Answered answers answered) :
    answered = (answers.map (·.1)).filterMap fun key =>
      (ResponseVariant.statusOf? key).map fun n => (key, n) := by
  induction h with
  | nil => rfl
  | variant stands _ ih =>
      have hstatus := ResponseVariant.statusOf?_eq_some_iff.2 stands
      rw [List.map_cons, List.filterMap_cons_some (by rw [hstatus]; rfl), ← ih]
  | skip stands _ ih =>
      have hstatus := Option.eq_none_iff_forall_ne_some.2 fun n hn =>
        stands n (ResponseVariant.statusOf?_eq_some_iff.1 hn)
      rw [List.map_cons, List.filterMap_cons_none (by rw [hstatus]; rfl), ← ih]

end ApiForge
