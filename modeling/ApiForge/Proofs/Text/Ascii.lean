import ApiForge.Text.Blank
import ApiForge.Text.Letter
/-!
Letters and digits of ASCII, and their two cases.

Core changes the case of ASCII letters only. A statement about one character
therefore splits into a check of the 128 characters of ASCII (`forall_ascii`) and
the others, which stay as they are (`toLower_eq_self`, `toUpper_eq_self`).
-/

namespace ApiForge.Text

variable {c : Char}

theorem isAlpha_iff : c.isAlpha = true ↔ c.isUpper = true ∨ c.isLower = true :=
  Bool.or_eq_true_iff

theorem isAlphanum_iff :
    c.isAlphanum = true ↔ c.isAlpha = true ∨ c.isDigit = true :=
  Bool.or_eq_true_iff

/-- What holds of each character of ASCII, looked at one by one, holds of any. -/
theorem forall_ascii {P : Char → Prop} (h : ∀ n : Fin 128, P (Char.ofNat n))
    (hc : c.toNat < 128) : P c := by
  have hP := h ⟨c.toNat, hc⟩
  rwa [Char.ofNat_toNat] at hP

theorem toLower_eq_self (h : 128 ≤ c.toNat) : c.toLower = c := by
  refine dif_neg ?_
  rintro ⟨-, hz⟩
  have hz : c.toNat ≤ 90 := UInt32.le_iff_toNat_le.1 hz
  omega

theorem toUpper_eq_self (h : 128 ≤ c.toNat) : c.toUpper = c := by
  refine dif_neg ?_
  rintro ⟨-, hz⟩
  have hz : c.toNat ≤ 122 := UInt32.le_iff_toNat_le.1 hz
  omega

/-- What the two cases of a character of ASCII are, looked at one by one. -/
theorem cases_ascii (hc : c.toNat < 128) :
    (c = c.toUpper ∨ c = c.toUpper.toLower)
      ∧ c.toLower.isAlphanum = c.isAlphanum
      ∧ (c.isAlphanum = true →
        (c.toLower.isLower = true ∨ c.toLower.isDigit = true)
          ∧ (c.toUpper.isUpper = true ∨ c.toUpper.isDigit = true))
      ∧ (c.isUpper = true → c.isLower = false)
      ∧ (c.isLower = false → c.toUpper = c)
      ∧ (c.isDigit = true → c.isUpper = false ∧ c.isLower = false) := by
  obtain ⟨n, rfl⟩ : ∃ n : Fin 128, c = Char.ofNat n :=
    ⟨⟨c.toNat, hc⟩, (Char.ofNat_toNat c).symm⟩
  clear hc
  revert n
  decide +kernel

/-- A character in upper case was so before, or it was in lower case. -/
theorem eq_or_eq_toLower {u : Char} (h : c.toUpper = u) :
    c = u ∨ c = u.toLower := by
  subst h
  by_cases hc : c.toNat < 128
  · exact (cases_ascii hc).1
  · exact .inl (toUpper_eq_self (Nat.not_lt.1 hc)).symm

/-- No change of case makes a letter or a digit out of anything else. -/
theorem isAlphanum_toLower : c.toLower.isAlphanum = c.isAlphanum := by
  by_cases hc : c.toNat < 128
  · exact (cases_ascii hc).2.1
  · rw [toLower_eq_self (Nat.not_lt.1 hc)]

theorem lower_or_digit (h : c.isAlphanum = true) :
    c.toLower.isLower = true ∨ c.toLower.isDigit = true := by
  obtain ⟨-, -, halnum, -⟩ := cases_ascii (toNat_lt_of_isAlphanum h)
  exact (halnum h).1

theorem upper_or_digit (h : c.isAlphanum = true) :
    c.toUpper.isUpper = true ∨ c.toUpper.isDigit = true := by
  obtain ⟨-, -, halnum, -⟩ := cases_ascii (toNat_lt_of_isAlphanum h)
  exact (halnum h).2

/-- A capital letter is a letter, and not a small one. -/
theorem of_isUpper (h : c.isUpper = true) :
    c.isAlphanum = true ∧ c.isLower = false := by
  have halnum : c.isAlphanum = true :=
    isAlphanum_iff.2 (.inl (isAlpha_iff.2 (.inl h)))
  obtain ⟨-, -, -, hupper, -⟩ := cases_ascii (toNat_lt_of_isAlphanum halnum)
  exact ⟨halnum, hupper h⟩

/-- What is not in lower case stays as it is when it is capitalised. -/
theorem toUpper_of_not_lower (h : c.isLower = false) : c.toUpper = c := by
  by_cases hc : c.toNat < 128
  · obtain ⟨-, -, -, -, hlower, -⟩ := cases_ascii hc
    exact hlower h
  · exact toUpper_eq_self (Nat.not_lt.1 hc)

/-- A digit has no case. -/
theorem of_isDigit (h : c.isDigit = true) :
    c.isUpper = false ∧ c.isLower = false := by
  have halnum : c.isAlphanum = true := isAlphanum_iff.2 (.inr h)
  obtain ⟨-, -, -, -, -, hdigit⟩ := cases_ascii (toNat_lt_of_isAlphanum halnum)
  exact hdigit h

end ApiForge.Text
