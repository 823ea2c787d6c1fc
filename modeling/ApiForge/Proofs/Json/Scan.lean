import ApiForge.Proofs.Json.Form
import ApiForge.Proofs.Numeric.IntegerText
import ApiForge.Proofs.Text.Ascii
import ApiForge.Proofs.Text.Utf8
/-!
The reader of JSON text answers what a form denotes.

`answer` is what the reader gives from some state on for the characters that are
still to come. Each part of a form has its rule: white space changes nothing
(`answer_gap`), a string ends with what its parts make one behind the other
(`answer_string`), a number ends where something comes that cannot belong to it
(`answer_numeral`), and a whole value is closed (`answer_text`), from any state in
which a value may begin. The last goes by recursion over the form, together with
its like for the items and members behind the first.
-/

namespace ApiForge.Json

open ApiForge.Text.Utf8 (encode)

-- ============================================================== octets

theorem encode_ascii {c : Char} (hc : c.toNat < 128) (cs : List Char) :
    encode (c :: cs) = UInt8.ofNat c.toNat :: encode cs := by
  rw [encode, List.flatMap_cons, ApiForge.Text.Utf8.encodeChar_ascii hc]
  rfl

/-- The octets of a character outside of ASCII lie outside of it, too. -/
theorem le_of_mem_encodeChar {c : Char} (hc : 128 ≤ c.toNat) {b : UInt8}
    (hb : b ∈ String.utf8EncodeChar c) : 128 ≤ b.toNat := by
  have hchar := ApiForge.Text.Utf8.encodeChar_ofNat (n := c.toNat) c.valid
  rw [Char.ofNat_toNat] at hchar
  rw [hchar, if_neg (by omega)] at hb
  have hlarge {n m : Nat} (hn : n < 64) (hm : 128 ≤ m) (hm' : m ≤ 192) :
      128 ≤ (UInt8.ofNat (n + m)).toNat := by
    rw [ApiForge.Text.Utf8.toNat_ofNat (by omega)]
    omega
  split at hb
  · rcases List.mem_pair.1 hb with rfl | rfl
    · exact hlarge (by omega) (by omega) (by omega)
    · exact hlarge (by omega) (by omega) (by omega)
  split at hb
  · simp only [List.mem_cons, List.not_mem_nil, or_false] at hb
    rcases hb with rfl | rfl | rfl
    · rw [ApiForge.Text.Utf8.toNat_ofNat (by omega)]
      omega
    · exact hlarge (by omega) (by omega) (by omega)
    · exact hlarge (by omega) (by omega) (by omega)
  · simp only [List.mem_cons, List.not_mem_nil, or_false] at hb
    rcases hb with rfl | rfl | rfl | rfl
    · rw [ApiForge.Text.Utf8.toNat_ofNat (by omega)]
      omega
    · exact hlarge (by omega) (by omega) (by omega)
    · exact hlarge (by omega) (by omega) (by omega)
    · exact hlarge (by omega) (by omega) (by omega)

namespace Text

/-- What the reader answers if some characters are still to come. -/
def answer (s : State) (cs : List Char) : Option Tree :=
  ((encode cs).foldlM step s).bind finish

variable {s : State} {cs rest : List Char} {stack : List Frame} {result : Option Tree}

theorem answer_nil : answer s [] = finish s := rfl

theorem answer_ascii {c : Char} (hc : c.toNat < 128) :
    answer s (c :: cs) = (step s (UInt8.ofNat c.toNat)).bind (answer · cs) := by
  rw [answer, encode_ascii hc, List.foldlM_cons, Option.bind_eq_bind, Option.bind_assoc]
  rfl

/-- A character of ASCII that is taken. -/
theorem answer_cons {c : Char} {t : State} (hc : c.toNat < 128)
    (hstep : step s (UInt8.ofNat c.toNat) = some t) :
    answer s (c :: cs) = answer t cs := by
  rw [answer_ascii hc, hstep, Option.bind_some]

-- ============================================================= strings

theorem add_add (p : Piece) (bs cs : List UInt8) :
    (p.add bs).add cs = p.add (bs ++ cs) := by
  simp [Piece.add]

/-- Octets that are neither marks nor control characters belong to the string. -/
theorem foldlM_plain {isKey : Bool} {bs : List UInt8} (hne : bs ≠ [])
    (hbs : ∀ b ∈ bs, b ≠ 0x22 ∧ b ≠ 0x5C ∧ 0x20 ≤ b.toNat) (p : Piece) :
    bs.foldlM step ⟨stack, .string isKey p, result⟩
      = some ⟨stack, .string isKey (p.add bs), result⟩ := by
  have hstep (p : Piece) {b : UInt8} (hb : b ≠ 0x22 ∧ b ≠ 0x5C ∧ 0x20 ≤ b.toNat) :
      step ⟨stack, .string isKey p, result⟩ b
        = some ⟨stack, .string isKey (p.add [b]), result⟩ := by
    have hlow : ¬ b < 0x20 := by
      rw [UInt8.lt_iff_toNat_lt]
      exact Nat.not_lt.2 hb.2.2
    simp [step, hb.1, hb.2.1, hlow]
  induction bs generalizing p with
  | nil => exact absurd rfl hne
  | cons b bs ih =>
      rw [List.foldlM_cons, hstep p (hbs b List.mem_cons_self)]
      by_cases hbs' : bs = []
      · subst hbs'
        rfl
      · refine (ih hbs' (fun b hb => hbs b (List.mem_cons_of_mem _ hb)) _).trans ?_
        rw [add_add]
        rfl

/-- A plain sign in a string is added to it. -/
theorem answer_plain {isKey : Bool} {c : Char} (hc : IsPlain c) (p : Piece) :
    answer ⟨stack, .string isKey p, result⟩ (c :: cs)
      = answer ⟨stack, .string isKey (p.add (encode [c])), result⟩ cs := by
  have hne : String.utf8EncodeChar c ≠ [] := by
    obtain ⟨b, tail, hb, -⟩ := ApiForge.Text.Utf8.read_encodeChar c []
    rw [hb]
    exact List.cons_ne_nil _ _
  have hplain : ∀ b ∈ String.utf8EncodeChar c, b ≠ 0x22 ∧ b ≠ 0x5C ∧ 0x20 ≤ b.toNat := by
    intro b hb
    -- an octet of a longer sign is none of the marks, as it lies outside of ASCII
    by_cases hascii : c.toNat < 128
    · rw [ApiForge.Text.Utf8.encodeChar_ascii hascii, List.mem_singleton] at hb
      subst hb
      obtain ⟨hlow, hquote, hslash⟩ := hc
      have hnum := ApiForge.Text.Utf8.toNat_ofNat (n := c.toNat) (by omega)
      have hother {d : Char} (hd : d.toNat < 128) (hne : c ≠ d) :
          UInt8.ofNat c.toNat ≠ UInt8.ofNat d.toNat := by
        rw [Ne, ApiForge.Text.Utf8.ofNat_eq_iff (by omega),
          ApiForge.Text.Utf8.toNat_ofNat (by omega)]
        exact fun h => hne (Char.toNat_inj.1 h)
      refine ⟨hother (by decide) hquote, hother (by decide) hslash, ?_⟩
      rw [hnum]
      exact hlow
    · have hlarge := le_of_mem_encodeChar (Nat.not_lt.1 hascii) hb
      refine ⟨?_, ?_, by omega⟩
      · rintro rfl
        exact absurd hlarge (by decide)
      · rintro rfl
        exact absurd hlarge (by decide)
  rw [answer, encode, List.flatMap_cons, List.foldlM_append, foldlM_plain hne hplain]
  rw [encode, List.flatMap_singleton]
  rfl

/-- A short escape adds the sign that it stands for. -/
theorem answer_short {isKey : Bool} (e : Short) (p : Piece) :
    answer ⟨stack, .string isKey p, result⟩ ('\\' :: e.letter :: cs)
      = answer ⟨stack, .string isKey (p.add (encode [e.char])), result⟩ cs := by
  rw [answer_cons (t := ⟨stack, .escape isKey p, result⟩) (by decide) rfl]
  cases e <;> exact answer_cons (by decide) rfl

theorem hexValue?_char (h : Hex) :
    h.char.toNat < 128 ∧ hexValue? (UInt8.ofNat h.char.toNat) = some h.value.val := by
  obtain ⟨v, upper⟩ := h
  revert v upper
  decide

/-- A digit of an escape is taken in, and one less is expected. -/
theorem answer_hex {isKey : Bool} {p : Piece} {value left : Nat} (hleft : 1 < left)
    (h : Hex) :
    answer ⟨stack, .unit isKey p value left, result⟩ (h.char :: cs)
      = answer ⟨stack, .unit isKey p (value * 16 + h.value) (left - 1), result⟩ cs := by
  obtain ⟨hascii, hvalue⟩ := hexValue?_char h
  refine answer_cons hascii ?_
  simp [step, hvalue, Nat.not_le.2 hleft]

/-- An escape by number adds its unit. -/
theorem answer_unit {isKey : Bool} (a b c d : Hex) (p : Piece) :
    answer ⟨stack, .string isKey p, result⟩
        ('\\' :: 'u' :: a.char :: b.char :: c.char :: d.char :: cs)
      = answer ⟨stack, .string isKey (p.addUnit (Atom.unitOf a b c d)), result⟩ cs := by
  rw [answer_cons (t := ⟨stack, .escape isKey p, result⟩) (by decide) rfl]
  rw [answer_cons (t := ⟨stack, .unit isKey p 0 4, result⟩) (by decide) rfl]
  rw [answer_hex (by decide), answer_hex (by decide), answer_hex (by decide)]
  obtain ⟨hascii, hvalue⟩ := hexValue?_char d
  refine answer_cons hascii ?_
  simp [step, hvalue, Atom.unitOf]

/-- The parts of a string are put one behind the other. -/
theorem answer_atoms {isKey : Bool} (atoms : List Atom) (p : Piece) :
    answer ⟨stack, .string isKey p, result⟩ (atomChars atoms ++ cs)
      = answer ⟨stack, .string isKey (atoms.foldl Atom.put p), result⟩ cs := by
  induction atoms generalizing p with
  | nil => rfl
  | cons a atoms ih =>
      rw [atomChars, List.flatMap_cons, List.append_assoc, List.foldl_cons, ← ih]
      cases a with
      | plain c hc => exact answer_plain hc p
      | short e => exact answer_short e p
      | unit a b c d => exact answer_unit a b c d p

-- ============================================================= numbers

/-- Whether a character may occur in a number. -/
def isNumberChar (c : Char) : Bool :=
  c.isDigit || c == '+' || c == '-' || c == '.' || c == 'e' || c == 'E'

/-- What follows a number begins with something that cannot belong to it. -/
def Clear (cs : List Char) : Prop := ∀ c ∈ cs.head?, isNumberChar c = false

theorem isNumberOctet_ofNat {c : Char} (hc : c.toNat < 128) :
    isNumberOctet (UInt8.ofNat c.toNat) = isNumberChar c :=
  ApiForge.Text.forall_ascii
    (P := fun c => isNumberOctet (UInt8.ofNat c.toNat) = isNumberChar c)
    (by decide +kernel) hc

/-- No octet of a character that cannot belong to a number can. -/
theorem not_isNumberOctet {c : Char} (hc : isNumberChar c = false) {b : UInt8}
    (hb : b ∈ String.utf8EncodeChar c) : isNumberOctet b = false := by
  by_cases hascii : c.toNat < 128
  · rw [ApiForge.Text.Utf8.encodeChar_ascii hascii, List.mem_singleton] at hb
    rw [hb, isNumberOctet_ofNat hascii, hc]
  · have hlarge := le_of_mem_encodeChar (Nat.not_lt.1 hascii) hb
    have hother (d : UInt8) (hd : d.toNat < 128) : (b == d) = false := by
      rw [beq_eq_false_iff_ne]
      rintro rfl
      omega
    have hdigit : (0x30 ≤ b && b ≤ 0x39) = false := by
      rw [Bool.eq_false_iff, Ne, ApiForge.Text.Utf8.range_iff]
      rintro ⟨-, h⟩
      exact absurd (Nat.le_trans hlarge h) (by decide)
    simp only [isNumberOctet, hdigit, hother 0x2B (by decide), hother 0x2D (by decide),
      hother 0x2E (by decide), hother 0x45 (by decide), hother 0x65 (by decide),
      Bool.or_self]

/-- A sign of numbers is in ASCII. -/
theorem of_isNumberChar {c : Char} (h : isNumberChar c = true) :
    c.toNat < 128 ∧ isNumberOctet (UInt8.ofNat c.toNat) = true
      ∧ Char.ofNat (UInt8.ofNat c.toNat).toNat = c := by
  have hc : c.toNat < 128 := by
    simp only [isNumberChar, Bool.or_eq_true, beq_iff_eq, Numeric.isDigit_iff] at h
    rcases h with ((((h | rfl) | rfl) | rfl) | rfl) | rfl
    · omega
    all_goals decide
  refine ⟨hc, (isNumberOctet_ofNat hc).trans h, ?_⟩
  rw [ApiForge.Text.Utf8.toNat_ofNat (by omega), Char.ofNat_toNat]

/-- An exponent consists of signs of numbers. -/
theorem number_of_readExponent {cs : List Char} {e : Option (Bool × List Char)}
    (h : Number.readExponent cs = some e) : ∀ c ∈ cs, isNumberChar c = true := by
  have hdigits {ds : List Char} (hds : ds.all Char.isDigit = true) :
      ∀ c ∈ ds, isNumberChar c = true := by
    intro c hc
    simp [isNumberChar, List.all_eq_true.1 hds c hc]
  unfold Number.readExponent at h
  split at h
  · exact fun c hc => absurd hc List.not_mem_nil
  · rename_i c rest
    split at h
    · rename_i hc
      have hmark : isNumberChar c = true := by
        simp only [Bool.or_eq_true, beq_iff_eq] at hc
        rcases hc with rfl | rfl <;> rfl
      refine List.forall_mem_cons.2 ⟨hmark, ?_⟩
      split at h
      rename_i hparts
      split at h
      · cases h
      · rename_i hall
        have hall := (Bool.or_eq_false_iff.1 (Bool.eq_false_iff.2 hall)).2
        rw [Bool.not_eq_false'] at hall
        split at hparts
        all_goals
          obtain ⟨-, rfl⟩ := Prod.mk.inj hparts
        · exact List.forall_mem_cons.2 ⟨rfl, hdigits hall⟩
        · exact List.forall_mem_cons.2 ⟨rfl, hdigits hall⟩
        · exact hdigits hall
    · cases h

theorem isNumberChar_of_isDigit {c : Char} (h : c.isDigit = true) :
    isNumberChar c = true := by
  simp [isNumberChar, h]

/-- A number begins with a sign or a digit, and nothing else than what may occur in
one follows. -/
theorem of_lexeme? {cs : List Char} {l : Number.Lexeme}
    (h : Number.lexeme? cs = some l) :
    (∃ c rest, cs = c :: rest ∧ (c = '-' ∨ c.isDigit = true))
      ∧ ∀ c ∈ cs, isNumberChar c = true := by
  have hdigits {cs : List Char} : ∀ c ∈ cs.takeWhile Char.isDigit,
      isNumberChar c = true := fun c hc =>
    isNumberChar_of_isDigit (List.all_eq_true.1 List.all_takeWhile c hc)
  unfold Number.lexeme? at h
  split at h
  rename_i negative body hsign
  obtain ⟨_, hguard, h⟩ := Option.bind_eq_some_iff.1 h
  -- an empty run of digits is no number
  have hfirst : ∃ c rest, body = c :: rest ∧ c.isDigit = true := by
    rw [guard] at hguard
    split at hguard
    · rename_i hlead
      cases body with
      | nil => exact absurd hlead (by decide)
      | cons c rest =>
          refine ⟨c, rest, rfl, ?_⟩
          by_contra hc
          rw [List.takeWhile_cons, if_neg hc] at hlead
          exact absurd hlead (by decide)
    · cases hguard
  have hall : ∀ c ∈ body, isNumberChar c = true := by
    rw [← List.takeWhile_append_dropWhile (p := Char.isDigit) (l := body)]
    refine List.forall_mem_append.2 ⟨hdigits, ?_⟩
    split at h
    · rename_i more hmore
      obtain ⟨-, -, h⟩ := Option.bind_eq_some_iff.1 h
      obtain ⟨e, he, -⟩ := Option.bind_eq_some_iff.1 h
      rw [hmore]
      refine List.forall_mem_cons.2 ⟨rfl, ?_⟩
      rw [← List.takeWhile_append_dropWhile (p := Char.isDigit) (l := more)]
      exact List.forall_mem_append.2 ⟨hdigits, number_of_readExponent he⟩
    · obtain ⟨e, he, -⟩ := Option.bind_eq_some_iff.1 h
      exact number_of_readExponent he
  obtain ⟨c, rest, hcons, hc⟩ := hfirst
  split at hsign
  · obtain ⟨-, rfl⟩ := Prod.mk.inj hsign
    exact ⟨⟨_, _, rfl, .inl rfl⟩, List.forall_mem_cons.2 ⟨rfl, hall⟩⟩
  · obtain ⟨-, rfl⟩ := Prod.mk.inj hsign
    exact ⟨⟨c, rest, hcons, .inr hc⟩, hall⟩

/-- The digits of a number are gathered. -/
theorem answer_digits {ds : List Char} (hds : ∀ c ∈ ds, isNumberChar c = true)
    (octets : List UInt8) :
    answer ⟨stack, .number octets, result⟩ (ds ++ cs)
      = answer ⟨stack, .number ((encode ds).reverse ++ octets), result⟩ cs := by
  induction ds generalizing octets with
  | nil => rfl
  | cons c ds ih =>
      obtain ⟨hc, hds⟩ := List.forall_mem_cons.1 hds
      obtain ⟨hascii, hnumber, -⟩ := of_isNumberChar hc
      rw [List.cons_append, answer_cons
        (t := ⟨stack, .number (UInt8.ofNat c.toNat :: octets), result⟩) hascii
        (by simp [step, hnumber]), ih hds, encode_ascii hascii]
      simp

/-- The octets of a number give its characters. -/
theorem chars_encode {ds : List Char} (hds : ∀ c ∈ ds, isNumberChar c = true) :
    (encode ds).map (fun b => Char.ofNat b.toNat) = ds := by
  induction ds with
  | nil => rfl
  | cons c ds ih =>
      obtain ⟨hc, hds⟩ := List.forall_mem_cons.1 hds
      obtain ⟨hascii, -, hback⟩ := of_isNumberChar hc
      rw [encode_ascii hascii, List.map_cons, hback, ih hds]

/-- What the state was in the middle of makes no difference to a value that ends. -/
theorem close_congr {s s' : State} {t : Tree} (hstack : s.stack = s'.stack)
    (hresult : s.result = s'.result) : s.close t = s'.close t := by
  obtain ⟨stack, mode, result⟩ := s
  obtain ⟨stack', mode', result'⟩ := s'
  obtain rfl : stack = stack' := hstack
  obtain rfl : result = result' := hresult
  unfold State.close
  cases stack with
  | nil => rfl
  | cons f stack => cases f <;> rfl

theorem close_mode (s : State) (t : Tree) : (s.close t).mode = .after := by
  unfold State.close
  split <;> rfl

/-- A number ends where something comes that cannot belong to it. -/
theorem answer_endNumber {octets : List UInt8} {t : Tree}
    (hread : Number.read? (octets.reverse.map fun b => Char.ofNat b.toNat) = some t)
    (hcs : Clear cs) :
    answer ⟨stack, .number octets, result⟩ cs
      = answer ((⟨stack, .after, result⟩ : State).close t) cs := by
  have hend : endNumber ⟨stack, .number octets, result⟩ octets
      = some ((⟨stack, .after, result⟩ : State).close t) := by
    rw [endNumber, hread, Option.map_some]
    exact congrArg some (close_congr rfl rfl)
  have hmode := close_mode ⟨stack, .after, result⟩ t
  cases cs with
  | nil =>
      rw [answer_nil, answer_nil, finish, finish, hmode]
      exact congrArg (Option.bind · _) hend
  | cons c cs =>
      -- the first octet of what follows closes the number, and is taken as after it
      obtain ⟨b, tail, hb, -⟩ := ApiForge.Text.Utf8.read_encodeChar c []
      have hnumber : isNumberOctet b = false :=
        not_isNumberOctet (hcs c rfl) (hb ▸ List.mem_cons_self)
      have hstep : step ⟨stack, .number octets, result⟩ b
          = step ((⟨stack, .after, result⟩ : State).close t) b := by
        rw [step, step, hmode]
        simp only [hnumber, hend]
        rfl
      rw [answer, answer, encode, List.flatMap_cons, hb, List.cons_append,
        List.foldlM_cons, List.foldlM_cons, hstep]

/-- Whether a value may begin. -/
def Begins (m : Mode) : Prop := m = .value ∨ m = .firstItem

theorem step_begin (hs : Begins s.mode) {b : UInt8} (hspace : isSpace b = false)
    (hend : (b == 0x5D) = false) : step s b = beginValue s b := by
  rcases hs with h | h <;> simp [step, h, hspace, hend]

/-- A number is closed at the first sign that cannot belong to it. -/
theorem answer_numeral (n : Numeral) (hs : Begins s.mode) (hcs : Clear cs) :
    answer s (n.chars ++ cs) = answer (s.close n.tree) cs := by
  obtain ⟨l, hl⟩ := Option.isSome_iff_exists.1 n.isNumber
  obtain ⟨⟨c, rest, hcons, hc⟩, hall⟩ := of_lexeme? hl
  have hread : Number.read? n.chars = some n.tree := by
    rw [Number.read?, Numeral.tree, Option.map_eq_some_iff]
    exact ⟨l, hl, by simp [hl]⟩
  rw [hcons] at hall
  obtain ⟨hnumber, hrest⟩ := List.forall_mem_cons.1 hall
  obtain ⟨hascii, -, hback⟩ := of_isNumberChar hnumber
  -- a sign or a digit begins a number, and nothing else
  have hfirst : step s (UInt8.ofNat c.toNat)
      = some { s with mode := .number [UInt8.ofNat c.toNat] } := by
    rw [step_begin hs]
    · rw [beginValue, hback]
      split
      all_goals try exact absurd hc (by decide)
      rw [if_pos]
      simpa using hc
    · refine ApiForge.Text.forall_ascii (P := fun c => isNumberChar c = true →
        isSpace (UInt8.ofNat c.toNat) = false) (by decide +kernel) hascii hnumber
    · refine ApiForge.Text.forall_ascii (P := fun c => isNumberChar c = true →
        (UInt8.ofNat c.toNat == 0x5D) = false) (by decide +kernel) hascii hnumber
  have hback' : ((encode rest).reverse ++ [UInt8.ofNat c.toNat]).reverse.map
      (fun b => Char.ofNat b.toNat) = n.chars := by
    rw [List.reverse_append, List.reverse_reverse, hcons]
    refine Eq.trans ?_ (chars_encode hall)
    rw [encode_ascii hascii]
    rfl
  rw [← hback'] at hread
  rw [hcons, List.cons_append, answer_cons hascii hfirst, answer_digits hrest,
    answer_endNumber hread hcs]
  exact congrArg (answer · cs) (close_congr rfl rfl)

-- ============================================================== values

/-- Whether white space is passed over, and nothing else. -/
def Between (m : Mode) : Prop :=
  m = .value ∨ m = .firstItem ∨ m = .firstKey ∨ m = .key ∨ m = .colon ∨ m = .after

/-- White space between tokens is passed over. -/
theorem answer_gap (hs : Between s.mode) (g : Gap) :
    answer s (g.chars ++ cs) = answer s cs := by
  have hwhite (w : White) : step s (UInt8.ofNat w.char.toNat) = some s := by
    have hspace : isSpace (UInt8.ofNat w.char.toNat) = true := by cases w <;> rfl
    rcases hs with h | h | h | h | h | h <;> simp [step, h, hspace]
  induction g with
  | nil => rfl
  | cons w g ih =>
      have hascii : w.char.toNat < 128 := by cases w <;> decide
      exact (answer_cons hascii (hwhite w)).trans ih

theorem clear_cons {c : Char} (hc : isNumberChar c = false) (cs : List Char) :
    Clear (c :: cs) := by
  rintro d hd
  rw [List.head?_cons, Option.mem_some_iff] at hd
  exact hd ▸ hc

theorem clear_gap (g : Gap) (hcs : Clear cs) : Clear (g.chars ++ cs) := by
  cases g with
  | nil => exact hcs
  | cons w g => exact clear_cons (by cases w <;> rfl) _

theorem clear_items (rest : List (Slot Form)) (hcs : Clear cs) :
    Clear (Form.itemsText rest ++ cs) := by
  cases rest with
  | nil => exact hcs
  | cons first rest => exact clear_cons rfl _

theorem clear_members (rest : List (Key × Slot Form)) (hcs : Clear cs) :
    Clear (Form.membersText rest ++ cs) := by
  cases rest with
  | nil => exact hcs
  | cons first rest => exact clear_cons rfl _

/-- A word is read to its end. -/
theorem answer_word {w : List Char} (hne : w ≠ []) (hw : ∀ c ∈ w, c.toNat < 128) (t : Tree) :
    answer ⟨stack, .word (encode w) t, result⟩ (w ++ cs)
      = answer ((⟨stack, .after, result⟩ : State).close t) cs := by
  induction w with
  | nil => exact absurd rfl hne
  | cons c w ih =>
      obtain ⟨hc, hw⟩ := List.forall_mem_cons.1 hw
      rw [encode_ascii hc, List.cons_append]
      cases w with
      | nil =>
          refine answer_cons hc ?_
          have hstep : step ⟨stack, .word [UInt8.ofNat c.toNat] t, result⟩
              (UInt8.ofNat c.toNat)
                = some ((⟨stack, .word [UInt8.ofNat c.toNat] t, result⟩ : State).close t) := by
            simp [step]
          exact hstep.trans (congrArg some (close_congr rfl rfl))
      | cons d w =>
          rw [← ih (List.cons_ne_nil _ _) hw]
          refine answer_cons hc ?_
          obtain ⟨hd, -⟩ := List.forall_mem_cons.1 hw
          simp [step, encode_ascii hd]

/-- A string is closed as the text of its parts. -/
theorem answer_string (hs : Begins s.mode) (atoms : List Atom) :
    answer s (quoted atoms ++ cs) = answer (s.close (textTree atoms)) cs := by
  rw [quoted, List.cons_append, List.append_assoc]
  rw [answer_cons (t := { s with mode := .string false {} }) (by decide)
    ((step_begin hs rfl rfl).trans rfl)]
  rw [answer_atoms]
  refine answer_cons (by decide) ?_
  show some _ = some _
  exact congrArg some (close_congr rfl rfl)

/-- A key is read to its colon. -/
theorem answer_key {acc : List (Tree × Tree)} {m : Mode} (hm : m = .firstKey ∨ m = .key)
    (k : Key) :
    answer ⟨.object acc :: stack, m, result⟩ (keyChars k ++ cs)
      = answer ⟨.member acc (textTree k.body) :: stack, .value, result⟩ cs := by
  have hbetween : Between m := by
    rcases hm with rfl | rfl
    · exact .inr (.inr (.inl rfl))
    · exact .inr (.inr (.inr (.inl rfl)))
  have hquote : step ⟨.object acc :: stack, m, result⟩ (UInt8.ofNat '"'.toNat)
      = some ⟨.object acc :: stack, .string true {}, result⟩ := by
    rcases hm with rfl | rfl <;> rfl
  rw [keyChars, quoted]
  simp only [List.append_assoc, List.cons_append, List.nil_append]
  rw [answer_gap hbetween, answer_cons (by decide) hquote, answer_atoms]
  rw [answer_cons (t := ⟨.member acc (textTree k.body) :: stack, .colon, result⟩)
    (by decide) rfl]
  rw [answer_gap (.inr (.inr (.inr (.inr (.inl rfl)))))]
  exact answer_cons (by decide) rfl

/-- A container is closed as the value that it is. -/
theorem pop_eq (s : State) (frame : Frame) (m : Mode) (t : Tree) :
    (⟨frame :: s.stack, m, s.result⟩ : State).pop t = s.close (atDepth s.stack.length t) := by
  have hdeep : maxDepth < (frame :: s.stack).length ↔ maxDepth ≤ s.stack.length :=
    Nat.lt_succ_iff
  rw [State.pop, atDepth]
  simp only [hdeep]
  exact close_congr rfl rfl

/-- A word that begins with a letter of its own. -/
theorem answer_name (hs : Begins s.mode) {c : Char} {w : List Char} {t : Tree} {name : String}
    (hname : name = String.ofList w)
    (hascii : (c :: w).all (fun d => decide (d.toNat < 128)) = true) (hne : w ≠ [])
    (hspace : isSpace (UInt8.ofNat c.toNat) = false)
    (hend : (UInt8.ofNat c.toNat == 0x5D) = false)
    (hbegin : beginValue s (UInt8.ofNat c.toNat)
      = some { s with mode := .word (ApiForge.Text.Utf8.bytes name) t }) :
    answer s ((c :: w) ++ cs) = answer (s.close t) cs := by
  have hall : ∀ d ∈ c :: w, d.toNat < 128 :=
    fun d hd => of_decide_eq_true (List.all_eq_true.1 hascii d hd)
  obtain ⟨hc, hw⟩ := List.forall_mem_cons.1 hall
  rw [List.cons_append, answer_cons hc ((step_begin hs hspace hend).trans hbegin)]
  rw [ApiForge.Text.Utf8.bytes_eq, hname, String.toList_ofList, answer_word hne hw]
  exact congrArg (answer · cs) (close_congr rfl rfl)

mutual

/-- A value is closed when its text has been read. -/
theorem answer_text (f : Form) {s : State} {cs : List Char} (hs : Begins s.mode)
    (hcs : Clear cs) :
    answer s (f.text ++ cs) = answer (s.close (f.treeAt s.stack.length)) cs := by
  -- the induction is on the form; containers are opened, filled and popped
  cases f with
  | null => exact answer_name hs rfl rfl (by decide) rfl rfl rfl
  | bool b =>
      cases b with
      | true => exact answer_name hs rfl rfl (by decide) rfl rfl rfl
      | false => exact answer_name hs rfl rfl (by decide) rfl rfl rfl
  | number n => exact answer_numeral n hs hcs
  | string atoms => exact answer_string hs atoms
  | noItems gap =>
      rw [Form.text, Form.treeAt]
      simp only [List.append_assoc, List.cons_append, List.nil_append]
      rw [answer_cons (t := ⟨.list [] :: s.stack, .firstItem, s.result⟩) (by decide)
        ((step_begin hs rfl rfl).trans rfl)]
      rw [answer_gap (.inr (.inl rfl))]
      refine answer_cons (by decide) ?_
      rw [← pop_eq s (.list []) .firstItem]
      rfl
  | items first rest =>
      obtain ⟨before, f, after⟩ := first
      rw [Form.text, Form.treeAt]
      simp only [List.append_assoc, List.cons_append, List.nil_append]
      rw [answer_cons (t := ⟨.list [] :: s.stack, .firstItem, s.result⟩) (by decide)
        ((step_begin hs rfl rfl).trans rfl)]
      have hclose : Clear (']' :: cs) := clear_cons rfl cs
      rw [answer_gap (.inr (.inl rfl)),
        answer_text f (.inr rfl) (clear_gap after (clear_items rest hclose))]
      show answer ⟨.list [f.treeAt (s.stack.length + 1)] :: s.stack, .after, s.result⟩ _ = _
      rw [answer_gap (.inr (.inr (.inr (.inr (.inr rfl))))), answer_items rest hclose]
      refine answer_cons (by decide) ?_
      show some (State.pop _ (.seq (List.reverse _))) = _
      rw [pop_eq, List.reverse_append, List.reverse_reverse]
      rfl
  | noMembers gap =>
      rw [Form.text, Form.treeAt]
      simp only [List.append_assoc, List.cons_append, List.nil_append]
      rw [answer_cons (t := ⟨.object [] :: s.stack, .firstKey, s.result⟩) (by decide)
        ((step_begin hs rfl rfl).trans rfl)]
      rw [answer_gap (.inr (.inr (.inl rfl)))]
      refine answer_cons (by decide) ?_
      rw [← pop_eq s (.object []) .firstKey]
      rfl
  | members first rest =>
      obtain ⟨k, before, f, after⟩ := first
      rw [Form.text, Form.treeAt]
      simp only [List.append_assoc, List.cons_append, List.nil_append]
      rw [answer_cons (t := ⟨.object [] :: s.stack, .firstKey, s.result⟩) (by decide)
        ((step_begin hs rfl rfl).trans rfl)]
      have hclose : Clear ('\x7d' :: cs) := clear_cons rfl cs
      rw [answer_key (.inl rfl), answer_gap (.inl rfl),
        answer_text f (.inl rfl) (clear_gap after (clear_members rest hclose))]
      show answer ⟨.object [(textTree k.body, f.treeAt (s.stack.length + 1))] :: s.stack,
        .after, s.result⟩ _ = _
      rw [answer_gap (.inr (.inr (.inr (.inr (.inr rfl))))), answer_members rest hclose]
      refine answer_cons (by decide) ?_
      show some (State.pop _ (.map (List.reverse _))) = _
      rw [pop_eq, List.reverse_append, List.reverse_reverse]
      rfl

/-- Further items are put in front of those that the frame holds. -/
theorem answer_items (rest : List (Slot Form)) {acc : List Tree} {stack : List Frame}
    {result : Option Tree} {cs : List Char} (hcs : Clear cs) :
    answer ⟨.list acc :: stack, .after, result⟩ (Form.itemsText rest ++ cs)
      = answer ⟨.list ((Form.itemTrees (stack.length + 1) rest).reverse ++ acc) :: stack,
          .after, result⟩ cs := by
  cases rest with
  | nil => rfl
  | cons first rest =>
      obtain ⟨before, f, after⟩ := first
      rw [Form.itemsText, Form.itemTrees]
      simp only [List.append_assoc, List.cons_append, List.reverse_cons, List.nil_append]
      rw [answer_cons (t := ⟨.list acc :: stack, .value, result⟩) (by decide) rfl]
      rw [answer_gap (.inl rfl),
        answer_text f (.inl rfl) (clear_gap after (clear_items rest hcs))]
      show answer ⟨.list (f.treeAt (stack.length + 1) :: acc) :: stack, .after, result⟩ _ = _
      rw [answer_gap (.inr (.inr (.inr (.inr (.inr rfl))))), answer_items rest hcs]

/-- Further members are put in front of those that the frame holds. -/
theorem answer_members (rest : List (Key × Slot Form)) {acc : List (Tree × Tree)}
    {stack : List Frame} {result : Option Tree} {cs : List Char} (hcs : Clear cs) :
    answer ⟨.object acc :: stack, .after, result⟩ (Form.membersText rest ++ cs)
      = answer ⟨.object ((Form.memberTrees (stack.length + 1) rest).reverse ++ acc) :: stack,
          .after, result⟩ cs := by
  cases rest with
  | nil => rfl
  | cons first rest =>
      obtain ⟨k, before, f, after⟩ := first
      rw [Form.membersText, Form.memberTrees]
      simp only [List.append_assoc, List.cons_append, List.reverse_cons, List.nil_append]
      rw [answer_cons (t := ⟨.object acc :: stack, .key, result⟩) (by decide) rfl]
      rw [answer_key (.inr rfl), answer_gap (.inl rfl),
        answer_text f (.inl rfl) (clear_gap after (clear_members rest hcs))]
      show answer ⟨.object ((textTree k.body, f.treeAt (stack.length + 1)) :: acc) :: stack,
        .after, result⟩ _ = _
      rw [answer_gap (.inr (.inr (.inr (.inr (.inr rfl))))), answer_members rest hcs]

end

/-- The reader answers what a text denotes, with white space around it or without. -/
theorem read?_text (before after : Gap) (f : Form) :
    read? (encode (before.chars ++ (f.text ++ after.chars))) = some (f.treeAt 0) := by
  have hend : Clear (after.chars ++ []) := clear_gap after (fun c hc => by cases hc)
  show answer {} (before.chars ++ (f.text ++ after.chars)) = _
  rw [answer_gap (.inl rfl), ← List.append_nil after.chars, answer_text f (.inl rfl) hend]
  exact answer_gap (.inr (.inr (.inr (.inr (.inr rfl))))) after

end Text

end ApiForge.Json
