import ApiForge.Proofs.Text.Utf8
import ApiForge.Text.Percent
import Mathlib.Data.List.Forall2
/-!
What is written with percent escapes is read back.

`Written value cs` says that the characters `cs` write a value so that it can
stand between two slashes: percent signs and slashes are escaped, and any other
character may be. An escaped character is escaped entirely, with one escape for
each octet, and a digit that is a letter may be of either case. Decoding undoes
all of it (`decode_written`). The proof goes through the octets: what is not
escaped holds no percent sign, so `decodeOctets` takes the pieces one after the
other.
-/

namespace ApiForge.Text.Percent

open String (utf8EncodeChar)
open Utf8 (encode)

-- ================================================ statement vocabulary

/-- A hexadecimal digit and its value, a letter in either case. -/
def IsDigit (n : Nat) (c : Char) : Prop :=
  c = n.digitChar ∨ c = n.digitChar.toUpper

instance (n : Nat) (c : Char) : Decidable (IsDigit n c) :=
  inferInstanceAs (Decidable (_ ∨ _))

/-- The escape of an octet. -/
inductive OctetAs (b : UInt8) : List Char → Prop
  | escape {high low : Char} :
      IsDigit (b.toNat / 16) high → IsDigit (b.toNat % 16) low →
      OctetAs b ['%', high, low]

/-- How a character of a value is written. -/
inductive CharAs (c : Char) : List Char → Prop
  | plain : c ≠ '%' → c ≠ '/' → CharAs c [c]
  | escaped {escapes : List (List Char)} :
      List.Forall₂ OctetAs (utf8EncodeChar c) escapes →
      CharAs c escapes.flatten

/-- A value, and characters that write it. -/
def Written (value : String) (cs : List Char) : Prop :=
  ∃ pieces, List.Forall₂ CharAs value.toList pieces ∧ cs = pieces.flatten

-- ============================================================== digits

/-- The octet of a digit has the digit's value. -/
theorem hexValue?_digit {n : Nat} (hn : n < 16) {c : Char} (h : IsDigit n c) :
    ∃ b, utf8EncodeChar c = [b] ∧ hexValue? b = some n := by
  have hboth : ∀ n : Fin 16,
      (utf8EncodeChar (Nat.digitChar n)).map hexValue? = [some n.val]
        ∧ (utf8EncodeChar (Nat.digitChar n).toUpper).map hexValue?
          = [some n.val] := by
    decide +kernel
  have hmap : (utf8EncodeChar c).map hexValue? = [some n] := by
    rcases h with rfl | rfl
    · exact (hboth ⟨n, hn⟩).1
    · exact (hboth ⟨n, hn⟩).2
  obtain ⟨b, hc, hb⟩ := List.map_eq_singleton_iff.1 hmap
  exact ⟨b, hc, hb⟩

/-- A hexadecimal digit is a letter or digit. -/
theorem isAlphanum_of_isDigit {n : Nat} (hn : n < 16) {c : Char}
    (h : IsDigit n c) : c.isAlphanum = true := by
  have hboth : ∀ n : Fin 16, (Nat.digitChar n).isAlphanum = true
      ∧ (Nat.digitChar n).toUpper.isAlphanum = true := by
    decide +kernel
  rcases h with rfl | rfl
  · exact (hboth ⟨n, hn⟩).1
  · exact (hboth ⟨n, hn⟩).2

-- ============================================================== octets

variable {plus : Bool}

theorem encode_append (cs ds : List Char) :
    encode (cs ++ ds) = encode cs ++ encode ds :=
  List.flatMap_append

/-- An octet other than a percent sign stands alone. -/
theorem decodeOctets_cons {b : UInt8} (h : b ≠ 0x25) (rest : List UInt8) :
    decodeOctets plus (b :: rest) = plain plus b :: decodeOctets plus rest := by
  have hb : (b == 0x25) = false := beq_eq_false_iff_ne.2 h
  match rest with
  | [] | [_] =>
      rw [decodeOctets]
      simp
  | _ :: _ :: _ =>
      rw [decodeOctets, hb]
      rfl

/-- Octets that stand for themselves are passed over by the decoder. -/
theorem decodeOctets_append {bs : List UInt8}
    (h : ∀ b ∈ bs, b ≠ 0x25 ∧ plain plus b = b) (rest : List UInt8) :
    decodeOctets plus (bs ++ rest) = bs ++ decodeOctets plus rest := by
  induction bs with
  | nil => rfl
  | cons b bs ih =>
      obtain ⟨⟨hb, hplain⟩, hbs⟩ := List.forall_mem_cons.1 h
      rw [List.cons_append, decodeOctets_cons hb, hplain, ih hbs]
      rfl

/-- The escape of an octet stands for the octet. -/
theorem decodeOctets_escape {b : UInt8} {cs : List Char} (h : OctetAs b cs)
    (rest : List UInt8) :
    decodeOctets plus (encode cs ++ rest) = b :: decodeOctets plus rest := by
  cases h with
  | @escape high low hhigh hlow =>
      have hlt : b.toNat < 256 := b.toNat_lt
      obtain ⟨h, hh, hvhigh⟩ := hexValue?_digit (by omega) hhigh
      obtain ⟨l, hl, hvlow⟩ := hexValue?_digit (by omega) hlow
      have hcs : encode ['%', high, low] = [0x25, h, l] := by
        simp only [encode, List.flatMap_cons, List.flatMap_nil, hh, hl]
        rfl
      have hoctet : escaped? h l = some b := by
        have hsum : b.toNat / 16 * 16 + b.toNat % 16 = b.toNat := by omega
        rw [escaped?, hvhigh, hvlow]
        dsimp only
        rw [hsum, UInt8.ofNat_toNat]
      rw [hcs]
      show decodeOctets plus (0x25 :: h :: l :: rest) = _
      rw [decodeOctets, if_pos (beq_self_eq_true _), hoctet]

-- ========================================================== characters

/-- Only a character of ASCII itself is written with its octet. -/
theorem ne_ofNat_of_mem {c : Char} {n : Nat} (hn : n < 128) (h : c.toNat ≠ n) :
    ∀ b ∈ utf8EncodeChar c, b ≠ UInt8.ofNat n := by
  have hval : c.val.toNat ≠ n := h
  have hne {m : Nat} (hm : m < 256) (hmn : m ≠ n) :
      UInt8.ofNat m ≠ UInt8.ofNat n := by
    intro heq
    rw [Utf8.ofNat_eq_iff hm, Utf8.toNat_ofNat (by omega)] at heq
    exact hmn heq
  -- a character of more than one octet has only octets above those of ASCII
  rw [utf8EncodeChar.eq_def]
  dsimp only
  generalize c.val.toNat = v at hval
  split
  · simp only [List.forall_mem_cons]
    exact ⟨hne (by omega) hval, fun b hb => absurd hb List.not_mem_nil⟩
  split
  · simp only [List.forall_mem_cons]
    exact ⟨hne (by omega) (by omega), hne (by omega) (by omega),
      fun b hb => absurd hb List.not_mem_nil⟩
  split
  · simp only [List.forall_mem_cons]
    exact ⟨hne (by omega) (by omega), hne (by omega) (by omega),
      hne (by omega) (by omega), fun b hb => absurd hb List.not_mem_nil⟩
  · simp only [List.forall_mem_cons]
    exact ⟨hne (by omega) (by omega), hne (by omega) (by omega),
      hne (by omega) (by omega), hne (by omega) (by omega),
      fun b hb => absurd hb List.not_mem_nil⟩

/-- The escapes of some octets stand for these. -/
theorem decodeOctets_escapes {bs : List UInt8} {escapes : List (List Char)}
    (h : List.Forall₂ OctetAs bs escapes) (rest : List UInt8) :
    decodeOctets plus (encode escapes.flatten ++ rest)
      = bs ++ decodeOctets plus rest := by
  induction h with
  | nil => rfl
  | cons hoctet _ ih =>
      rw [List.flatten_cons, encode_append, List.append_assoc,
        decodeOctets_escape hoctet, List.cons_append, ih]

/-- A written character stands for its octets. -/
theorem decodeOctets_charAs {c : Char} {cs : List Char} (h : CharAs c cs)
    (rest : List UInt8) :
    decodeOctets false (encode cs ++ rest)
      = utf8EncodeChar c ++ decodeOctets false rest := by
  cases h with
  | plain hpercent _ =>
      have hval : c.toNat ≠ 0x25 := mt (fun h => Char.toNat_inj.1 h) hpercent
      rw [encode, List.flatMap_singleton]
      exact decodeOctets_append
        (fun b hb => ⟨ne_ofNat_of_mem (by decide) hval b hb, rfl⟩) rest
  | escaped hescapes => exact decodeOctets_escapes hescapes rest

/-- What holds of the characters of each piece holds of all characters. -/
theorem forall_mem_pieces {α : Type} {WrittenAs : α → List Char → Prop}
    {P : Char → Prop} (hP : ∀ a cs, WrittenAs a cs → ∀ x ∈ cs, P x) {l : List α}
    {pieces : List (List Char)} (h : List.Forall₂ WrittenAs l pieces) :
    ∀ x ∈ pieces.flatten, P x := by
  induction h with
  | nil => exact fun x hx => absurd hx List.not_mem_nil
  | cons hpiece _ ih =>
      intro x hx
      rcases List.mem_append.1 hx with hx | hx
      · exact hP _ _ hpiece x hx
      · exact ih x hx

/-- Escapes are percent signs, letters and digits. -/
theorem mem_escapes {bs : List UInt8} {escapes : List (List Char)}
    (h : List.Forall₂ OctetAs bs escapes) :
    ∀ x ∈ escapes.flatten, x = '%' ∨ x.isAlphanum = true := by
  refine forall_mem_pieces (fun b cs hoctet x hx => ?_) h
  have hlt : b.toNat < 256 := b.toNat_lt
  obtain ⟨hhigh, hlow⟩ := hoctet
  simp only [List.mem_cons, List.not_mem_nil, or_false] at hx
  rcases hx with rfl | rfl | rfl
  · exact .inl rfl
  · exact .inr (isAlphanum_of_isDigit (by omega) hhigh)
  · exact .inr (isAlphanum_of_isDigit (by omega) hlow)

/-- No character is written with a slash. -/
theorem no_slash_of_charAs {c : Char} {cs : List Char} (h : CharAs c cs) :
    '/' ∉ cs := by
  cases h with
  | plain _ hslash => exact fun hmem => hslash (List.mem_singleton.1 hmem).symm
  | escaped hescapes =>
      intro hmem
      rcases mem_escapes hescapes _ hmem with h | h <;>
        exact absurd h (by decide)

/-- Every character is written with something. -/
theorem ne_nil_of_charAs {c : Char} {cs : List Char} (h : CharAs c cs) :
    cs ≠ [] := by
  cases h with
  | plain => exact List.cons_ne_nil _ _
  | @escaped escapes hescapes =>
      obtain ⟨b, tail, hc, -⟩ := Utf8.read_encodeChar c []
      rw [hc] at hescapes
      cases hescapes with
      | cons hoctet _ =>
          cases hoctet with
          | escape => exact List.cons_ne_nil _ _

-- =============================================================== values

variable {value : String} {cs : List Char}

/-- If each piece stands for a character, the pieces stand for the text. -/
theorem decode_pieces {WrittenAs : Char → List Char → Prop}
    (hdecode : ∀ c cs, WrittenAs c cs → ∀ rest,
      decodeOctets plus (encode cs ++ rest)
        = utf8EncodeChar c ++ decodeOctets plus rest)
    {pieces : List (List Char)}
    (h : List.Forall₂ WrittenAs value.toList pieces) :
    decode plus (String.ofList pieces.flatten) = value := by
  have hoctets : decodeOctets plus (encode pieces.flatten)
      = encode value.toList := by
    generalize value.toList = chars at h
    induction h with
    | nil => rw [List.flatten_nil, encode, List.flatMap_nil, decodeOctets]
    | cons hchar _ ih =>
        rw [List.flatten_cons, encode_append, hdecode _ _ hchar, ih]
        exact List.flatMap_cons.symm
  rw [decode, Utf8.bytes_eq, String.toList_ofList, hoctets,
    Utf8.decodeLossy_encode, String.ofList_toList]

/-- Decoding gives back what was written. -/
theorem decode_written (h : Written value cs) :
    decode false (String.ofList cs) = value := by
  obtain ⟨pieces, hpieces, rfl⟩ := h
  exact decode_pieces (fun _ _ hchar => decodeOctets_charAs hchar) hpieces

/-- What writes a value holds no slash. -/
theorem no_slash_of_written (h : Written value cs) : '/' ∉ cs := by
  obtain ⟨pieces, hpieces, rfl⟩ := h
  have hother := forall_mem_pieces (P := (· ≠ '/'))
    (fun c cs hchar x hx heq => no_slash_of_charAs hchar (heq ▸ hx)) hpieces
  exact fun hmem => hother _ hmem rfl

/-- What writes a value is not empty unless the value is. -/
theorem ne_nil_of_written (h : Written value cs) (hvalue : value ≠ "") :
    cs ≠ [] := by
  obtain ⟨pieces, hpieces, rfl⟩ := h
  cases hchars : value.toList with
  | nil => exact absurd (String.toList_eq_nil_iff.1 hchars) hvalue
  | cons c rest =>
      rw [hchars] at hpieces
      cases hpieces with
      | cons hchar _ =>
          rw [List.flatten_cons]
          exact List.append_ne_nil_of_left_ne_nil (ne_nil_of_charAs hchar) _

end ApiForge.Text.Percent
