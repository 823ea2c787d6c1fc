import ApiForge.Http.Request
import ApiForge.Proofs.Text.Utf8
import Mathlib.Data.List.Basic
/-!
The texts of header values.

A value is a row of octets. It has a text just when it is the UTF-8 form of
characters that are visible in ASCII, spaces or tabs, and these are then its text
(`text?_eq_some_iff`). Of the blanks only spaces and tabs can stand in such a text
(`eq_space_or_tab`).
-/

namespace ApiForge.Http

namespace Header

open Text.Utf8 (bytes bytes_eq encode encodeChar_ascii encodeChar_one)

-- ================================================ statement vocabulary

/-- A character that the text of a header can hold. -/
def Readable (c : Char) : Prop :=
  ' ' ≤ c ∧ c ≤ '~' ∨ c = '\t'

instance (c : Char) : Decidable (Readable c) :=
  inferInstanceAs (Decidable (_ ∨ _))

-- ========================================================= characters

/-- Readable signs are those from the blank to the tilde, and the tab. -/
theorem readable_iff {c : Char} :
    Readable c ↔ 32 ≤ c.toNat ∧ c.toNat ≤ 126 ∨ c.toNat = 9 := by
  have htab : c = '\t' ↔ c.toNat = 9 := Char.toNat_inj.symm
  unfold Readable
  rw [htab]
  rfl

/-- Readable octets are the numbers of readable signs. -/
theorem isReadableOctet_iff {b : UInt8} :
    isReadableOctet b = true ↔ 32 ≤ b.toNat ∧ b.toNat ≤ 126 ∨ b.toNat = 9 := by
  simp only [isReadableOctet, Bool.or_eq_true, Bool.and_eq_true,
    decide_eq_true_eq, beq_iff_eq, UInt8.le_iff_toNat_le, UInt8.lt_iff_toNat_lt,
    ← UInt8.toNat_inj, UInt8.reduceToNat]
  omega

/-- The only blanks that a text can hold. -/
theorem eq_space_or_tab {c : Char} (hblank : Text.isBlank c = true)
    (h : Readable c) : c = ' ' ∨ c = '\t' := by
  have hnum := readable_iff.1 h
  have hspace : c = ' ' ↔ c.toNat = 32 := Char.toNat_inj.symm
  have htab : c = '\t' ↔ c.toNat = 9 := Char.toNat_inj.symm
  rw [hspace, htab]
  simp only [Text.isBlank, Bool.or_eq_true, Bool.and_eq_true, decide_eq_true_eq,
    beq_iff_eq] at hblank
  omega

-- =============================================================== texts

/-- A readable octet is the form of one character, which is readable. -/
theorem readable_ofNat {b : UInt8} (h : isReadableOctet b = true) :
    Readable (Char.ofNat b.toNat)
      ∧ String.utf8EncodeChar (Char.ofNat b.toNat) = [b] := by
  have hnum := isReadableOctet_iff.1 h
  have hvalid : b.toNat.isValidChar := .inl (by omega)
  have hchar : (Char.ofNat b.toNat).toNat = b.toNat := by
    rw [Char.ofNat, dif_pos hvalid]
    rfl
  exact ⟨readable_iff.2 (by rwa [hchar]), encodeChar_one (by omega)⟩

/-- Readable signs are written as one octet each. -/
theorem encode_readable {cs : List Char} (h : ∀ c ∈ cs, Readable c) :
    encode cs = cs.map fun c => UInt8.ofNat c.toNat := by
  unfold encode
  induction cs with
  | nil => rfl
  | cons c cs ih =>
      obtain ⟨hc, hcs⟩ := List.forall_mem_cons.1 h
      have hnum := readable_iff.1 hc
      rw [List.flatMap_cons, encodeChar_ascii (by omega), ih hcs]
      rfl

/-- A value has a text if it is written in readable characters. -/
theorem text?_eq_some_iff {h : Header} {text : String} : h.text? = some text
    ↔ h.value = bytes text ∧ ∀ c ∈ text.toList, Readable c := by
  unfold text?
  constructor
  · intro htext
    obtain ⟨hall, htext⟩ := Option.ite_none_right_eq_some.1 htext
    cases htext
    have hoctet := List.all_eq_true.1 hall
    rw [bytes_eq, String.toList_ofList]
    constructor
    -- a readable octet is the code of its own sign
    · have hback :
          h.value.flatMap (fun b => String.utf8EncodeChar (Char.ofNat b.toNat))
            = h.value.flatMap fun b => [b] :=
        List.flatMap_congr fun b hb => (readable_ofNat (hoctet b hb)).2
      unfold encode
      rw [List.flatMap_map, hback, List.flatMap_singleton']
    · intro c hc
      obtain ⟨b, hb, rfl⟩ := List.mem_map.1 hc
      exact (readable_ofNat (hoctet b hb)).1
  · rintro ⟨hvalue, hreadable⟩
    rw [bytes_eq, encode_readable hreadable] at hvalue
    have hnum {c : Char} (hc : c ∈ text.toList) :
        (UInt8.ofNat c.toNat).toNat = c.toNat := by
      have := readable_iff.1 (hreadable c hc)
      exact Text.Utf8.toNat_ofNat (by omega)
    have hall : h.value.all isReadableOctet = true := by
      rw [hvalue, List.all_map, List.all_eq_true]
      intro c hc
      show isReadableOctet (UInt8.ofNat c.toNat) = true
      rw [isReadableOctet_iff, hnum hc]
      exact readable_iff.1 (hreadable c hc)
    have hback : text.toList.map (fun c => Char.ofNat (UInt8.ofNat c.toNat).toNat)
        = text.toList.map id :=
      List.map_congr_left fun c hc => by rw [hnum hc, Char.ofNat_toNat, id]
    rw [if_pos hall, hvalue, List.map_map]
    show some (String.ofList (text.toList.map _)) = some text
    rw [Function.comp_def, hback, List.map_id, String.ofList_toList]

/-- An octet above ASCII makes a value unreadable. -/
theorem text?_eq_none {h : Header} {b : UInt8} (hb : b ∈ h.value)
    (hlarge : 0x80 ≤ b) : h.text? = none := by
  have hunreadable : isReadableOctet b = false := by
    rw [Bool.eq_false_iff, Ne, isReadableOctet_iff]
    have hlarge : 128 ≤ b.toNat := UInt8.le_iff_toNat_le.1 hlarge
    omega
  unfold text?
  rw [if_neg]
  intro hall
  rw [List.all_eq_true.1 hall b hb] at hunreadable
  cases hunreadable

end Header

-- ============================================================ requests

namespace Request

variable {r : Request} {name lower : String}

theorem headersNamed_eq (h : Header.nameOf? name = some lower) :
    r.headersNamed name = r.headers.filter (·.name == lower) := by
  unfold headersNamed
  rw [h]

/-- Of several headers of a name the first is read. -/
theorem headerText?_eq (h : Header.nameOf? name = some lower) :
    r.headerText? name
      = (r.headers.find? (·.name == lower)).bind Header.text? := by
  unfold headerText?
  rw [headersNamed_eq h, List.head?_filter]

end Request

end ApiForge.Http
