import ApiForge.Text.Utf8
import Mathlib.Data.Nat.Init
/-!
What is written as UTF-8 is read back.

`Utf8.read` tells the forms of one, two, three and four octets apart by the
range of the first, and there is one lemma for each form. They are stated for
the digits in radix 64 that a character is written with (`read_one` to
`read_four`); the ranges that are shut out of the second octet become bounds on
the first two digits. No character lies outside of these bounds
(`read_encodeChar`), so a text that is encoded is read back from its front
(`decodeLossy_encode`). The bounds also work the other way: what is read as a
character is how this character is written (`encodeChar_of_read`), so strict
decoding accepts what is written and nothing else (`decode?_eq_some_iff`).

The octets of texts are in the order of the texts (`bytes_lt`): a table in key
order is in the order of the octets of its keys.
-/

namespace ApiForge.Text.Utf8

open String (utf8EncodeChar)

-- ============================================================== octets

theorem toNat_ofNat {n : Nat} (h : n < 256) : (UInt8.ofNat n).toNat = n := by
  rw [UInt8.toNat_ofNat']
  exact Nat.mod_eq_of_lt h

theorem ofNat_lt_iff {n : Nat} (h : n < 256) (b : UInt8) :
    UInt8.ofNat n < b ↔ n < b.toNat := by
  rw [UInt8.lt_iff_toNat_lt, toNat_ofNat h]

theorem lt_ofNat_iff {n : Nat} (h : n < 256) (b : UInt8) :
    b < UInt8.ofNat n ↔ b.toNat < n := by
  rw [UInt8.lt_iff_toNat_lt, toNat_ofNat h]

theorem ofNat_eq_iff {n : Nat} (h : n < 256) (b : UInt8) :
    UInt8.ofNat n = b ↔ n = b.toNat := by
  rw [← UInt8.toNat_inj, toNat_ofNat h]

/-- Whether an octet lies in a range. -/
theorem between_iff {n : Nat} (h : n < 256) (least greatest : UInt8) :
    (least ≤ UInt8.ofNat n && UInt8.ofNat n ≤ greatest) = true
      ↔ least.toNat ≤ n ∧ n ≤ greatest.toNat := by
  simp [UInt8.le_iff_toNat_le, toNat_ofNat h]

/-- The octet of a digit in radix 64 continues a character. -/
theorem isTail_ofNat {y : Nat} (hy : y < 64) :
    isTail (UInt8.ofNat (y + 128)) = true := by
  have hn : y + 128 < 256 := by omega
  have hbounds : 128 ≤ y + 128 ∧ y + 128 ≤ 191 := by omega
  exact (between_iff hn _ _).2 hbounds

theorem tailBits_ofNat {y : Nat} (hy : y < 64) :
    tailBits (UInt8.ofNat (y + 128)) = y := by
  rw [tailBits, toNat_ofNat (by omega)]
  omega

/-- The bounds on the first two digits that keep the second octet in range. -/
theorem secondInRange_ofNat {n y : Nat} (hn : n < 256) (hy : y < 64)
    (hE0 : n = 224 → 32 ≤ y) (hED : n = 237 → y < 32)
    (hF0 : n = 240 → 16 ≤ y) (hF4 : n = 244 → y < 16) :
    secondInRange (UInt8.ofNat n) (UInt8.ofNat (y + 128)) = true := by
  have hn' : y + 128 < 256 := by omega
  simp only [secondInRange, isTail_ofNat hy, Bool.true_and, Bool.and_eq_true,
    Bool.not_eq_true', Bool.and_eq_false_imp, beq_iff_eq, ofNat_eq_iff hn,
    decide_eq_false_iff_not, gt_iff_lt, ofNat_lt_iff hn', lt_ofNat_iff hn']
  simp only [UInt8.reduceToNat]
  omega

-- =============================================================== forms

/-- A character of one octet is read. -/
theorem read_one {n : Nat} (hn : n < 128) (rest : List UInt8) :
    read (UInt8.ofNat n) rest = (some (Char.ofNat n), 0) := by
  have hn' : n < 256 := by omega
  have hone : UInt8.ofNat n < 0x80 := (ofNat_lt_iff hn' _).2 hn
  unfold read
  rw [if_pos hone, toNat_ofNat hn']

/-- An octet from 192 on is no character of its own. -/
theorem not_one {n : Nat} (hn : n < 256) (h : 192 ≤ n) :
    ¬ UInt8.ofNat n < 0x80 := by
  rw [ofNat_lt_iff hn]
  simp only [UInt8.reduceToNat]
  omega

/-- An octet past a range is not in it. -/
theorem not_between {n : Nat} (hn : n < 256) {least greatest : UInt8}
    (h : greatest.toNat < n) :
    ¬ (least ≤ UInt8.ofNat n && UInt8.ofNat n ≤ greatest) = true := by
  rw [between_iff hn]
  omega

/-- A character of two octets is read. -/
theorem read_two {x y : Nat} (hx : 2 ≤ x) (hx' : x < 32) (hy : y < 64)
    (rest : List UInt8) :
    read (UInt8.ofNat (x + 192)) (UInt8.ofNat (y + 128) :: rest)
      = (some (Char.ofNat (x * 64 + y)), 1) := by
  have hn : x + 192 < 256 := by omega
  have hbits : (x + 192) % 0x20 = x := by omega
  have htwo : (0xC2 ≤ UInt8.ofNat (x + 192) && UInt8.ofNat (x + 192) ≤ 0xDF)
      = true := (between_iff hn _ _).2 (by simp only [UInt8.reduceToNat]; omega)
  unfold read
  rw [if_neg (not_one hn (by omega)), if_pos htwo]
  simp only [isTail_ofNat hy, if_true, toNat_ofNat hn, hbits, tailBits_ofNat hy]

/-- A character of three octets is read, where it is not overlong and no surrogate. -/
theorem read_three {x y z : Nat} (hx : x < 16) (hy : y < 64) (hz : z < 64)
    (hlong : x = 0 → 32 ≤ y) (hsurrogate : x = 13 → y < 32)
    (rest : List UInt8) :
    read (UInt8.ofNat (x + 224))
        (UInt8.ofNat (y + 128) :: UInt8.ofNat (z + 128) :: rest)
      = (some (Char.ofNat ((x * 64 + y) * 64 + z)), 2) := by
  have hn : x + 224 < 256 := by omega
  have hbits : (x + 224) % 0x10 = x := by omega
  have hsecond : secondInRange (UInt8.ofNat (x + 224)) (UInt8.ofNat (y + 128))
      = true := by
    apply secondInRange_ofNat hn hy <;> omega
  have hthree : (0xE0 ≤ UInt8.ofNat (x + 224) && UInt8.ofNat (x + 224) ≤ 0xEF)
      = true := (between_iff hn _ _).2 (by simp only [UInt8.reduceToNat]; omega)
  unfold read
  rw [if_neg (not_one hn (by omega)),
    if_neg (not_between hn (by simp only [UInt8.reduceToNat]; omega)),
    if_pos hthree]
  simp only [hsecond, isTail_ofNat hz, if_true, toNat_ofNat hn, hbits,
    tailBits_ofNat hy, tailBits_ofNat hz]

/-- A character of four octets is read, where it is not overlong and within Unicode. -/
theorem read_four {x y z w : Nat} (hx : x < 5) (hy : y < 64) (hz : z < 64)
    (hw : w < 64) (hlong : x = 0 → 16 ≤ y) (hlast : x = 4 → y < 16)
    (rest : List UInt8) :
    read (UInt8.ofNat (x + 240))
        (UInt8.ofNat (y + 128) :: UInt8.ofNat (z + 128)
          :: UInt8.ofNat (w + 128) :: rest)
      = (some (Char.ofNat (((x * 64 + y) * 64 + z) * 64 + w)), 3) := by
  have hn : x + 240 < 256 := by omega
  have hbits : (x + 240) % 0x8 = x := by omega
  have hsecond : secondInRange (UInt8.ofNat (x + 240)) (UInt8.ofNat (y + 128))
      = true := by
    apply secondInRange_ofNat hn hy <;> omega
  have hfour : (0xF0 ≤ UInt8.ofNat (x + 240) && UInt8.ofNat (x + 240) ≤ 0xF4)
      = true := (between_iff hn _ _).2 (by simp only [UInt8.reduceToNat]; omega)
  unfold read
  rw [if_neg (not_one hn (by omega)),
    if_neg (not_between hn (by simp only [UInt8.reduceToNat]; omega)),
    if_neg (not_between hn (by simp only [UInt8.reduceToNat]; omega)),
    if_pos hfour]
  simp only [hsecond, isTail_ofNat hz, isTail_ofNat hw, if_true, toNat_ofNat hn,
    hbits, tailBits_ofNat hy, tailBits_ofNat hz, tailBits_ofNat hw]

-- ========================================================== characters

/-- The octets of a character are read as the character, whatever follows. -/
theorem read_encodeChar (c : Char) (rest : List UInt8) :
    ∃ b tail, utf8EncodeChar c = b :: tail
      ∧ read b (tail ++ rest) = (some c, tail.length) := by
  have hvalid : c.toNat < 0xD800 ∨ 0xDFFF < c.toNat ∧ c.toNat < 0x110000 :=
    c.valid
  have hchar {n : Nat} (h : n = c.toNat) : Char.ofNat n = c := by
    rw [h, Char.ofNat_toNat]
  -- by the number of octets; what is valid of a character excludes the forms not read
  rw [utf8EncodeChar.eq_def]
  have hval : c.val.toNat = c.toNat := rfl
  rw [hval]
  generalize c.toNat = v at hvalid hchar
  dsimp only
  split
  · refine ⟨_, _, rfl, ?_⟩
    rw [read_one (by omega), hchar rfl]
    rfl
  split
  · refine ⟨_, _, rfl, ?_⟩
    refine (read_two (by omega) (by omega) (by omega) rest).trans ?_
    rw [hchar (by omega)]
    rfl
  split
  · refine ⟨_, _, rfl, ?_⟩
    refine (read_three (by omega) (by omega) (by omega) (by omega) (by omega)
      rest).trans ?_
    rw [hchar (by omega)]
    rfl
  · refine ⟨_, _, rfl, ?_⟩
    refine (read_four (by omega) (by omega) (by omega) (by omega) (by omega)
      (by omega) rest).trans ?_
    rw [hchar (by omega)]
    rfl

/-- Octets that begin with a character are read from the front. -/
theorem decodeLossy_encodeChar (c : Char) (rest : List UInt8) :
    decodeLossy (utf8EncodeChar c ++ rest) = c :: decodeLossy rest := by
  obtain ⟨b, tail, hc, hread⟩ := read_encodeChar c rest
  rw [hc, List.cons_append, decodeLossy, hread]
  simp

/-- Text that is encoded and decoded is the same text. -/
theorem decodeLossy_encode (cs : List Char) : decodeLossy (encode cs) = cs := by
  induction cs with
  | nil => rw [encode, List.flatMap_nil, decodeLossy]
  | cons c cs ih =>
      rw [encode, List.flatMap_cons, decodeLossy_encodeChar]
      exact congrArg _ ih

-- ====================================================== characters read

theorem isTail_iff {b : UInt8} :
    isTail b = true ↔ 128 ≤ b.toNat ∧ b.toNat ≤ 191 := by
  simp [isTail, UInt8.le_iff_toNat_le]

/-- What the second octet has to be like behind some first ones. -/
theorem secondInRange_iff {b c : UInt8} : secondInRange b c = true
    ↔ (128 ≤ c.toNat ∧ c.toNat ≤ 191) ∧ (b.toNat = 224 → 160 ≤ c.toNat)
      ∧ (b.toNat = 237 → c.toNat ≤ 159) ∧ (b.toNat = 240 → 144 ≤ c.toNat)
      ∧ (b.toNat = 244 → c.toNat ≤ 143) := by
  simp [secondInRange, isTail_iff, and_assoc, ← UInt8.toNat_inj,
    UInt8.lt_iff_toNat_lt, Decidable.imp_iff_not_or]

theorem range_iff {b least greatest : UInt8} :
    (least ≤ b && b ≤ greatest) = true
      ↔ least.toNat ≤ b.toNat ∧ b.toNat ≤ greatest.toNat := by
  simp [UInt8.le_iff_toNat_le]

/-- The octets of a character in terms of its number. -/
theorem encodeChar_ofNat {n : Nat} (h : n.isValidChar) :
    utf8EncodeChar (Char.ofNat n)
      = if n ≤ 127 then [UInt8.ofNat n]
        else if n ≤ 2047 then
          [UInt8.ofNat (n / 64 % 32 + 192), UInt8.ofNat (n % 64 + 128)]
        else if n ≤ 65535 then
          [UInt8.ofNat (n / 4096 % 16 + 224), UInt8.ofNat (n / 64 % 64 + 128),
            UInt8.ofNat (n % 64 + 128)]
        else
          [UInt8.ofNat (n / 262144 % 8 + 240), UInt8.ofNat (n / 4096 % 64 + 128),
            UInt8.ofNat (n / 64 % 64 + 128), UInt8.ofNat (n % 64 + 128)] := by
  have hval : (Char.ofNat n).val.toNat = n := by
    rw [Char.ofNat, dif_pos h]
    rfl
  rw [utf8EncodeChar.eq_def, hval]

section Read

variable {b c d e : UInt8}

theorem encodeChar_one (h : b.toNat < 128) :
    utf8EncodeChar (Char.ofNat b.toNat) = [b] := by
  rw [encodeChar_ofNat (.inl (by omega)), if_pos (by omega), UInt8.ofNat_toNat]

/-- The character read from two octets is written as these. -/
theorem encodeChar_two (hb : 194 ≤ b.toNat ∧ b.toNat ≤ 223)
    (hc : isTail c = true) :
    utf8EncodeChar (Char.ofNat (b.toNat % 0x20 * 0x40 + tailBits c)) = [b, c] := by
  have hc := isTail_iff.1 hc
  unfold tailBits
  rw [encodeChar_ofNat (.inl (by omega)), if_neg (by omega), if_pos (by omega)]
  congr
  · rw [ofNat_eq_iff (by omega)]
    omega
  · rw [ofNat_eq_iff (by omega)]
    omega

/-- The character read from three octets is written as these. -/
theorem encodeChar_three (hb : 224 ≤ b.toNat ∧ b.toNat ≤ 239)
    (hc : secondInRange b c = true) (hd : isTail d = true) :
    utf8EncodeChar (Char.ofNat
      ((b.toNat % 0x10 * 0x40 + tailBits c) * 0x40 + tailBits d)) = [b, c, d] := by
  obtain ⟨hc, hlong, hsurrogate, -⟩ := secondInRange_iff.1 hc
  have hd := isTail_iff.1 hd
  unfold tailBits
  generalize hn : (b.toNat % 0x10 * 0x40 + c.toNat % 0x40) * 0x40
    + d.toNat % 0x40 = n
  have hvalid : n < 0xD800 ∨ 0xDFFF < n ∧ n < 0x110000 := by omega
  rw [encodeChar_ofNat hvalid, if_neg (by omega), if_neg (by omega),
    if_pos (by omega)]
  congr
  · rw [ofNat_eq_iff (by omega)]
    omega
  · rw [ofNat_eq_iff (by omega)]
    omega
  · rw [ofNat_eq_iff (by omega)]
    omega

/-- The character read from four octets is written as these. -/
theorem encodeChar_four (hb : 240 ≤ b.toNat ∧ b.toNat ≤ 244)
    (hc : secondInRange b c = true) (hd : isTail d = true)
    (he : isTail e = true) :
    utf8EncodeChar (Char.ofNat
      (((b.toNat % 0x8 * 0x40 + tailBits c) * 0x40 + tailBits d) * 0x40
        + tailBits e)) = [b, c, d, e] := by
  obtain ⟨hc, -, -, hlong, hlast⟩ := secondInRange_iff.1 hc
  have hd := isTail_iff.1 hd
  have he := isTail_iff.1 he
  unfold tailBits
  generalize hn : ((b.toNat % 0x8 * 0x40 + c.toNat % 0x40) * 0x40
    + d.toNat % 0x40) * 0x40 + e.toNat % 0x40 = n
  have hvalid : n < 0xD800 ∨ 0xDFFF < n ∧ n < 0x110000 := by omega
  -- the ranges of the first two octets leave only the longest form
  rw [encodeChar_ofNat hvalid, if_neg (by omega), if_neg (by omega),
    if_neg (by omega)]
  congr
  · rw [ofNat_eq_iff (by omega)]
    omega
  · rw [ofNat_eq_iff (by omega)]
    omega
  · rw [ofNat_eq_iff (by omega)]
    omega
  · rw [ofNat_eq_iff (by omega)]
    omega

/-- A character that is read is written in the octets that were read. -/
theorem encodeChar_of_read {rest : List UInt8} {ch : Char} {k : Nat}
    (h : Utf8.read b rest = (some ch, k)) :
    utf8EncodeChar ch = b :: rest.take k := by
  -- along the tests of the reader; every way that fails answers no character
  unfold Utf8.read at h
  split at h
  · next hone =>
      cases h
      exact encodeChar_one (UInt8.lt_iff_toNat_lt.1 hone)
  split at h
  · next htwo =>
      split at h
      · split at h
        · next hc =>
            cases h
            exact encodeChar_two (range_iff.1 htwo) hc
        · cases h
      · cases h
  split at h
  · next hthree =>
      split at h
      · split at h
        · next hc =>
            split at h
            · split at h
              · next hd =>
                  cases h
                  exact encodeChar_three (range_iff.1 hthree) hc hd
              · cases h
            · cases h
        · cases h
      · cases h
  split at h
  · next hfour =>
      split at h
      · split at h
        · next hc =>
            split at h
            · split at h
              · next hd =>
                  split at h
                  · split at h
                    · next he =>
                        cases h
                        exact encodeChar_four (range_iff.1 hfour) hc hd he
                    · cases h
                  · cases h
              · cases h
            · cases h
        · cases h
      · cases h
  · cases h

end Read

/-- Octets that begin with a character are read from the front, strictly too. -/
theorem decode?_encodeChar (c : Char) (rest : List UInt8) :
    decode? (utf8EncodeChar c ++ rest) = (decode? rest).map (c :: ·) := by
  obtain ⟨b, tail, hc, hread⟩ := read_encodeChar c rest
  rw [hc, List.cons_append, decode?, hread]
  simp

/-- What is decoded is written in just these octets. -/
theorem decode?_eq_some_iff {bs : List UInt8} {cs : List Char} :
    decode? bs = some cs ↔ bs = encode cs := by
  constructor
  · intro h
    fun_induction decode? bs generalizing cs with
    | case1 =>
        cases h
        rfl
    | case2 b rest c k hread ih =>
        obtain ⟨cs, hrest, rfl⟩ := Option.map_eq_some_iff.1 h
        rw [encode, List.flatMap_cons, encodeChar_of_read hread, ← encode,
          ← ih hrest, List.cons_append, List.take_append_drop]
    | case3 => cases h
  · rintro rfl
    induction cs with
    | nil => rw [encode, List.flatMap_nil, decode?]
    | cons c cs ih =>
        rw [encode, List.flatMap_cons, decode?_encodeChar, ← encode, ih]
        rfl

-- =============================================================== texts

/-- The loop over an array collects its octets from the index on. -/
theorem toList_loop (bs : ByteArray) (i : Nat) (read : List UInt8) :
    ByteArray.toList.loop bs i read
      = read.reverse ++ bs.data.toList.drop i := by
  fun_induction ByteArray.toList.loop bs i read with
  | case1 i read hi ih =>
      have hi' : i < bs.data.toList.length := hi
      rw [ih, List.drop_eq_getElem_cons hi']
      simp [ByteArray.get!, hi]
  | case2 i read hi =>
      rw [List.drop_eq_nil_of_le (Nat.not_lt.1 hi), List.append_nil]

/-- The octets of a text are those of its characters. -/
theorem bytes_eq (s : String) : bytes s = encode s.toList := by
  have hs : s.toUTF8 = (encode s.toList).toByteArray := by
    conv => lhs; rw [← String.ofList_toList (s := s)]
    exact String.toByteArray_ofList
  rw [bytes, hs, ByteArray.toList, toList_loop]
  simp

theorem bytes_append (s t : String) : bytes (s ++ t) = bytes s ++ bytes t := by
  rw [bytes_eq, bytes_eq, bytes_eq, String.toList_append]
  exact List.flatMap_append

/-- A character of ASCII is written with its number. -/
theorem encodeChar_ascii {c : Char} (h : c.toNat < 128) :
    utf8EncodeChar c = [UInt8.ofNat c.toNat] := by
  have hnum : (UInt8.ofNat c.toNat).toNat = c.toNat := toNat_ofNat (by omega)
  have hone := encodeChar_one (b := UInt8.ofNat c.toNat) (by omega)
  rwa [hnum, Char.ofNat_toNat] at hone

/-- A text whose first octet is one of ASCII begins with the character of this
number. -/
theorem toNat_of_head_bytes {s : String} {c : Char} {cs : List Char}
    {b : UInt8} (hs : s.toList = c :: cs) (h : (bytes s).head? = some b)
    (hb : b < 0x80) : c.toNat = b.toNat := by
  obtain ⟨first, tail, hc, hread⟩ := read_encodeChar c []
  have hfirst : first = b := by
    rw [bytes_eq, hs, encode, List.flatMap_cons, hc] at h
    exact Option.some.inj h
  rw [hfirst] at hread
  unfold read at hread
  rw [if_pos hb] at hread
  have hchar : Char.ofNat b.toNat = c := Option.some.inj (Prod.mk.inj hread).1
  have hlt : b.toNat < 128 := hb
  have hvalid : b.toNat.isValidChar := .inl (by omega)
  rw [← hchar, Char.ofNat, dif_pos hvalid]
  rfl

/-- Every text but the empty one has a first octet. -/
theorem exists_head_bytes {s : String} {c : Char} {cs : List Char}
    (hs : s.toList = c :: cs) : ∃ b, (bytes s).head? = some b := by
  obtain ⟨b, tail, hc, -⟩ := read_encodeChar c []
  rw [bytes_eq, hs, encode, List.flatMap_cons, hc]
  exact ⟨b, rfl⟩

-- =============================================================== order

/-- Octets are compared as numbers, at the first place where they differ. -/
theorem ofNat_cons_lt_iff {m n : Nat} (hm : m < 256) (hn : n < 256)
    {l l' : List UInt8} :
    UInt8.ofNat m :: l < UInt8.ofNat n :: l' ↔ m < n ∨ m = n ∧ l < l' := by
  rw [List.cons_lt_cons_iff, ofNat_lt_iff hm, ofNat_eq_iff hm, toNat_ofNat hn]

/-- The octets of a smaller character come first, whatever follows: a longer form
begins with a greater octet, and in one form the digits are compared from the
front. -/
theorem encodeChar_append_lt {c d : Char} (h : c < d) (l l' : List UInt8) :
    utf8EncodeChar c ++ l < utf8EncodeChar d ++ l' := by
  have hvalid : d.toNat < 0xD800 ∨ 0xDFFF < d.toNat ∧ d.toNat < 0x110000 :=
    d.valid
  have hlast : d.val.toNat < 0x110000 := by
    change d.toNat < 0x110000
    omega
  have hlt : c.val.toNat < d.val.toNat := h
  rw [utf8EncodeChar.eq_def, utf8EncodeChar.eq_def]
  generalize c.val.toNat = m at hlt
  generalize d.val.toNat = n at hlt hlast
  dsimp only
  by_cases hm₁ : m ≤ 127
  · rw [if_pos hm₁]
    repeat' split
    all_goals
      simp (disch := omega) only [List.cons_append, List.nil_append,
        ofNat_cons_lt_iff]
      omega
  rw [if_neg hm₁, if_neg (show ¬ n ≤ 127 by omega)]
  by_cases hm₂ : m ≤ 2047
  · rw [if_pos hm₂]
    repeat' split
    all_goals
      simp (disch := omega) only [List.cons_append, List.nil_append,
        ofNat_cons_lt_iff]
      omega
  rw [if_neg hm₂, if_neg (show ¬ n ≤ 2047 by omega)]
  by_cases hm₃ : m ≤ 65535
  · rw [if_pos hm₃]
    split
    all_goals
      simp (disch := omega) only [List.cons_append, List.nil_append,
        ofNat_cons_lt_iff]
      omega
  rw [if_neg hm₃, if_neg (show ¬ n ≤ 65535 by omega)]
  simp (disch := omega) only [List.cons_append, List.nil_append,
    ofNat_cons_lt_iff]
  -- one digit is split off, which leaves numbers of three digits
  have hshift (k : Nat) :
      k / 4096 = k / 64 / 64 ∧ k / 262144 = k / 64 / 64 / 64 := by omega
  have hm := Nat.div_add_mod m 64
  have hn := Nat.div_add_mod n 64
  simp only [hshift]
  generalize m / 64 = front at *
  generalize n / 64 = front' at *
  omega

/-- Texts are ordered as their octets. -/
theorem encode_lt {cs ds : List Char} (h : cs < ds) : encode cs < encode ds := by
  induction h with
  | @nil d ds =>
      obtain ⟨b, tail, hd, -⟩ := read_encodeChar d []
      rw [encode, encode, List.flatMap_cons, hd]
      exact .nil
  | @rel c cs d ds hlt => exact encodeChar_append_lt hlt _ _
  | @cons c cs ds _ ih => exact List.append_left_lt ih

/-- Texts in the order of their characters are in the order of their octets. -/
theorem bytes_lt {s t : String} (h : s < t) : bytes s < bytes t := by
  rw [bytes_eq, bytes_eq]
  exact encode_lt (String.lt_iff.1 h)

end ApiForge.Text.Utf8
