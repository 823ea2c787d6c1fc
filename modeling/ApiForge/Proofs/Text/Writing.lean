import ApiForge.Proofs.Text.Percent
/-!
Every writing of a text is read back.

`Writes plus value cs` says that the characters `cs` write `value` in one of the
ways that a reader must undo. A character stands for itself or is escaped, with one
escape for each of its octets; a percent sign may stand for itself where no two
hexadecimal digits follow, so that a malformed escape is only text; and where a plus
sign is a space, it does not stand for itself.

Decoding looks at two octets behind a percent sign, and these may belong to
characters of any length or to other escapes. Octets that are hexadecimal digits are
characters by themselves (`exists_digit`), so what decoding sees there is what
`BeginsWithDigits` says of the characters (`decodeOctets_percent`). Each way of
writing a character then stands for its octets, whatever follows
(`every_writing_is_read`).
-/

namespace ApiForge.Text.Percent

open String (utf8EncodeChar)
open Utf8 (encode)

-- ================================================ statement vocabulary

/-- A hexadecimal digit. -/
def IsHexDigit (c : Char) : Prop :=
  ∃ n < 16, IsDigit n c

/-- Two hexadecimal digits stand in front. Behind a percent sign they make an
escape. -/
def BeginsWithDigits : List Char → Prop
  | high :: low :: _ => IsHexDigit high ∧ IsHexDigit low
  | _ => False

instance (c : Char) : Decidable (IsHexDigit c) :=
  inferInstanceAs (Decidable (∃ n, n < 16 ∧ IsDigit n c))

instance : DecidablePred BeginsWithDigits
  | high :: low :: _ =>
    inferInstanceAs (Decidable (IsHexDigit high ∧ IsHexDigit low))
  | [] => inferInstanceAs (Decidable False)
  | [_] => inferInstanceAs (Decidable False)

/-- How the characters of a text are written; `plus` says that a plus sign is a
space. -/
inductive Writes (plus : Bool) : List Char → List Char → Prop
  | nil : Writes plus [] []
  /-- A character that stands for itself. -/
  | raw {c : Char} {value cs : List Char} :
      (c = '%' → ¬ BeginsWithDigits cs) → (plus = true → c ≠ '+') →
      Writes plus value cs → Writes plus (c :: value) (c :: cs)
  /-- A character that is escaped entirely. -/
  | escaped {c : Char} {escapes : List (List Char)} {value cs : List Char} :
      List.Forall₂ OctetAs (utf8EncodeChar c) escapes →
      Writes plus value cs → Writes plus (c :: value) (escapes.flatten ++ cs)
  /-- A space that is written as a plus sign. -/
  | space {value cs : List Char} :
      plus = true → Writes plus value cs → Writes plus (' ' :: value) ('+' :: cs)

/-- No percent sign begins an escape, and no plus sign is a space. -/
def Bare (plus : Bool) (cs : List Char) : Prop :=
  (∀ front back, cs = front ++ '%' :: back → ¬ BeginsWithDigits back)
    ∧ (plus = true → '+' ∉ cs)

-- ================================================================ digits

variable {plus : Bool} {value cs : List Char}

/-- An octet that is a hexadecimal digit is one of ASCII, and the character that it
is by itself is the digit. -/
theorem isDigit_of_hexValue? {b : UInt8} {n : Nat} (h : hexValue? b = some n) :
    b < 0x80 ∧ n < 16 ∧ IsDigit n (Char.ofNat b.toNat) := by
  have hall : ∀ m : Fin 256, (hexValue? (UInt8.ofNat m)).all (fun n =>
      UInt8.ofNat m < 0x80 ∧ n < 16 ∧ IsDigit n (Char.ofNat m)) = true := by
    decide +kernel
  have hb := hall ⟨b.toNat, b.toNat_lt⟩
  rw [UInt8.ofNat_toNat, h] at hb
  exact of_decide_eq_true hb

/-- If an octet in front is a hexadecimal digit, the character in front is. -/
theorem exists_digit {b : UInt8} {rest : List UInt8} {n : Nat}
    (hcs : encode cs = b :: rest) (hb : hexValue? b = some n) :
    ∃ c cs', cs = c :: cs' ∧ IsHexDigit c ∧ encode cs' = rest := by
  obtain ⟨hascii, hn, hdigit⟩ := isDigit_of_hexValue? hb
  cases cs with
  | nil => cases hcs
  | cons c cs =>
      obtain ⟨first, tail, hc, hread⟩ := Utf8.read_encodeChar c []
      rw [encode, List.flatMap_cons, hc, List.cons_append] at hcs
      obtain ⟨rfl, hrest⟩ := List.cons.inj hcs
      unfold Utf8.read at hread
      rw [if_pos hascii] at hread
      obtain ⟨hchar, htail⟩ := Prod.mk.inj hread
      cases Option.some.inj hchar
      rw [List.eq_nil_of_length_eq_zero htail.symm, List.nil_append] at hrest
      exact ⟨_, cs, rfl, ⟨n, hn, hdigit⟩, hrest⟩

/-- A percent sign without two hexadecimal digits behind it stands for itself. -/
theorem decodeOctets_percent (h : ¬ BeginsWithDigits cs) :
    decodeOctets plus (0x25 :: encode cs)
      = 0x25 :: decodeOctets plus (encode cs) := by
  have hplain : plain plus 0x25 = 0x25 := by cases plus <;> rfl
  match hoctets : encode cs with
  | [] | [_] =>
      rw [decodeOctets, hplain]
      simp
  | high :: low :: rest =>
      have hnone : escaped? high low = none := by
        unfold escaped?
        split
        · rename_i hhigh hlow
          -- both octets are digits, and so are the characters in front
          obtain ⟨c, cs', rfl, hc, hrest⟩ := exists_digit hoctets hhigh
          obtain ⟨d, cs', rfl, hd, -⟩ := exists_digit hrest hlow
          exact absurd ⟨hc, hd⟩ h
        · rfl
      rw [decodeOctets, if_pos (beq_self_eq_true _), hnone]
      simp only [hplain]

-- ============================================================== writings

/-- A character that stands for itself stands for its octets. -/
theorem decodeOctets_raw {c : Char} (hpercent : c = '%' → ¬ BeginsWithDigits cs)
    (hplus : plus = true → c ≠ '+') :
    decodeOctets plus (encode (c :: cs))
      = utf8EncodeChar c ++ decodeOctets plus (encode cs) := by
  rw [encode, List.flatMap_cons]
  by_cases hc : c = '%'
  · subst hc
    exact decodeOctets_percent (hpercent rfl)
  · have hval : c.toNat ≠ 0x25 := mt (fun h => Char.toNat_inj.1 h) hc
    refine decodeOctets_append (fun b hb => ⟨?_, ?_⟩) (encode cs)
    · exact ne_ofNat_of_mem (by decide) hval b hb
    · cases plus with
      | false => rfl
      | true =>
          have hval : c.toNat ≠ 0x2B :=
            mt (fun h => Char.toNat_inj.1 h) (hplus rfl)
          have hb := ne_ofNat_of_mem (by decide) hval b hb
          exact if_neg (by simpa using hb)

/-- The octets that a writing stands for are those of the text. -/
theorem decodeOctets_writes (h : Writes plus value cs) :
    decodeOctets plus (encode cs) = encode value := by
  induction h with
  | nil => rw [encode, List.flatMap_nil, decodeOctets]
  | raw hpercent hplus _ ih =>
      rw [decodeOctets_raw hpercent hplus, ih]
      exact List.flatMap_cons.symm
  | escaped hescapes _ ih =>
      rw [encode_append, decodeOctets_escapes hescapes, ih]
      exact List.flatMap_cons.symm
  | @space value cs hplus _ ih =>
      have hoctets : encode ('+' :: cs) = 0x2B :: encode cs := rfl
      rw [hoctets, decodeOctets_cons (by decide), ih, hplus]
      rfl

/-- A bare text writes itself. -/
theorem writes_self (h : Bare plus cs) : Writes plus cs cs := by
  induction cs with
  | nil => exact .nil
  | cons c cs ih =>
      obtain ⟨hpercent, hplus⟩ := h
      refine .raw (fun hc => ?_) (fun hp hc => ?_) (ih ⟨fun front back hcs => ?_, fun hp => ?_⟩)
      · exact hpercent [] cs (by rw [hc]; rfl)
      · exact hplus hp (by rw [hc]; exact List.mem_cons_self ..)
      · exact hpercent (c :: front) back (by rw [hcs]; rfl)
      · exact fun hmem => hplus hp (List.mem_cons_of_mem _ hmem)

-- ========================================================= main result

/-- Decoding gives back every text from each of its writings. In particular it
leaves a text as it is in which no percent sign begins an escape and no plus sign is
a space, and so one without percent signs and such plus signs. -/
theorem every_writing_is_read (plus : Bool) :
    (∀ value written : String, Writes plus value.toList written.toList →
        decode plus written = value)
      ∧ (∀ text : String, Bare plus text.toList → decode plus text = text)
      ∧ ∀ text : String, '%' ∉ text.toList →
          (plus = true → '+' ∉ text.toList) → decode plus text = text := by
  have hread {value written : String}
      (h : Writes plus value.toList written.toList) :
      decode plus written = value := by
    rw [decode, Utf8.bytes_eq, decodeOctets_writes h, Utf8.decodeLossy_encode,
      String.ofList_toList]
  refine ⟨fun _ _ => hread, fun text h => hread (writes_self h),
    fun text hpercent hplus => hread (writes_self ⟨?_, hplus⟩)⟩
  intro front back htext
  rw [htext] at hpercent
  exact absurd (List.mem_append_right _ (List.mem_cons_self ..)) hpercent

-- a form value that is written in every way

/-- Two percent signs begin no escape, the second because an escape follows. Then
come a letter that need not be escaped, a space as a plus sign, an escaped plus
sign, a letter of two octets, and a percent sign with one digit. -/
def crowded : List (List Char) :=
  [['%'], ['%'], ['%', '4', '1'], ['+'], ['%', '2', 'b'],
    ['%', 'C', '3', '%', 'a', '9'], ['%'], ['4']]

/-- A text that is written in all ways at once: raw, escaped, and with a plus. -/
theorem writes_crowded :
    Writes true "%%A +é%4".toList (String.ofList crowded.flatten).toList := by
  have hvalue : "%%A +é%4".toList = ['%', '%', 'A', ' ', '+', 'é', '%', '4'] := by
    decide
  have hA : List.Forall₂ OctetAs (utf8EncodeChar 'A') [['%', '4', '1']] := by
    have hoctets : utf8EncodeChar 'A' = [0x41] := by decide
    rw [hoctets]
    exact .cons (.escape (by decide) (by decide)) .nil
  have hplus : List.Forall₂ OctetAs (utf8EncodeChar '+') [['%', '2', 'b']] := by
    have hoctets : utf8EncodeChar '+' = [0x2B] := by decide
    rw [hoctets]
    exact .cons (.escape (by decide) (by decide)) .nil
  have haccent : List.Forall₂ OctetAs (utf8EncodeChar 'é')
      [['%', 'C', '3'], ['%', 'a', '9']] := by
    have hoctets : utf8EncodeChar 'é' = [0xC3, 0xA9] := by decide
    rw [hoctets]
    exact .cons (.escape (by decide) (by decide))
      (.cons (.escape (by decide) (by decide)) .nil)
  -- one rule for each character of the text, in its order
  rw [hvalue, String.toList_ofList]
  exact .raw (fun _ => by decide) (fun _ => by decide) <|
    .raw (fun _ => by decide) (fun _ => by decide) <|
    .escaped hA <| .space rfl <| .escaped hplus <| .escaped haccent <|
    .raw (fun _ => by decide) (fun _ => by decide) <|
    .raw (fun h => absurd h (by decide)) (fun _ => by decide) .nil

/-- The value is read. -/
theorem every_writing_is_read_crowded :
    Writes true "%%A +é%4".toList (String.ofList crowded.flatten).toList
      ∧ decode true (String.ofList crowded.flatten) = "%%A +é%4" :=
  ⟨writes_crowded, (every_writing_is_read true).1 _ _ writes_crowded⟩

end ApiForge.Text.Percent
