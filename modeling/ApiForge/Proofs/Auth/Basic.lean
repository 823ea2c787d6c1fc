import ApiForge.Proofs.Auth.Credential
import ApiForge.Proofs.Text.Ascii
import ApiForge.Proofs.Text.Base64
import ApiForge.Proofs.Text.Trim
/-!
Reading a user name and a password inverts writing them.

# What a header shows

`Shows word token value` says what a header value looks like in which a token
stands behind a scheme word. It says so of the octets, so that the token is found
there (`bind_afterWord?_eq_some_iff`) is also a statement about which octets can
be read as a text, about trimming, about the case of letters and about the first
space.

# Tokens of the basic scheme

A token is the base 64 form of the UTF-8 form of two texts with a colon between.
Each of the three forms can be undone, and has one written form only, so a token
stands for one user name and one password, and for these there is one token
(`userAndPassword?_eq_some_iff`).
-/

namespace ApiForge.Auth

open ApiForge.Http (Header Header.Readable Request)
open ApiForge.Text (Base64.decode? Blanks Tight Utf8.bytes)

-- ================================================ statement vocabulary

/-- Spaces and tabs, or nothing. -/
def IsGap (s : String) : Prop :=
  ∀ c ∈ s.toList, c = ' ' ∨ c = '\t'

/-- A header value of a scheme word in any case, at least one space and a token,
around which more spaces and tabs may stand. -/
def Shows (word token : String) (value : List UInt8) : Prop :=
  ∃ before written gap after, IsGap before ∧ IsGap gap ∧ IsGap after
    ∧ Scheme.sameWord written word = true
    ∧ value = Utf8.bytes (before ++ written ++ " " ++ gap ++ token ++ after)

/-- The base 64 form of a user name and a password with a colon between. -/
def pairToken (user password : String) : String :=
  String.ofList (Text.Base64.encode (Utf8.bytes (user ++ ":" ++ password)))

-- ================================================================ words

variable {r : Request} {word written token gap user password : String}

/-- A letter or a digit can be read, and is no blank. -/
theorem of_isAlphanum {c : Char} (h : c.isAlphanum = true) :
    Header.Readable c ∧ Text.isBlank c = false :=
  Text.forall_ascii (P := fun c => c.isAlphanum = true →
    Header.Readable c ∧ Text.isBlank c = false)
    (by decide +kernel) (Text.toNat_lt_of_isAlphanum h) h

/-- Words are the same if they are so letter by letter. -/
theorem sameWord_iff : Scheme.sameWord written word = true
    ↔ written.toList.map Char.toLower = word.toList.map Char.toLower := by
  rw [Scheme.sameWord, beq_iff_eq, ← String.toList_inj, String.toList_map,
    String.toList_map]

/-- A word of letters and digits is one in any case. -/
theorem isAlphanum_of_sameWord (hword : ∀ c ∈ word.toList, c.isAlphanum = true)
    (h : Scheme.sameWord written word = true) :
    ∀ c ∈ written.toList, c.isAlphanum = true := by
  intro c hc
  have hmem : c.toLower ∈ word.toList.map Char.toLower := by
    rw [← sameWord_iff.1 h]
    exact List.mem_map_of_mem hc
  obtain ⟨d, hd, hsame⟩ := List.mem_map.1 hmem
  rw [← Text.isAlphanum_toLower, ← hsame, Text.isAlphanum_toLower]
  exact hword d hd

theorem ne_empty_of_sameWord (hne : word ≠ "")
    (h : Scheme.sameWord written word = true) : written ≠ "" := by
  rintro rfl
  exact hne (String.toList_eq_nil_iff.1
    (List.map_eq_nil_iff.1 (sameWord_iff.1 h).symm))

theorem blanks_of_isGap (h : IsGap gap) : Blanks gap := by
  intro c hc
  rcases h c hc with rfl | rfl <;> decide

theorem readable_of_isGap (h : IsGap gap) :
    ∀ c ∈ gap.toList, Header.Readable c := by
  intro c hc
  rcases h c hc with rfl | rfl <;> decide

theorem isGap_of_blanks (h : Blanks gap)
    (hreadable : ∀ c ∈ gap.toList, Header.Readable c) : IsGap gap :=
  fun c hc => Header.eq_space_or_tab (h c hc) (hreadable c hc)

theorem tight_of_isAlphanum (h : ∀ c ∈ written.toList, c.isAlphanum = true) :
    Tight written := by
  constructor
  · exact fun c hc => (of_isAlphanum (h c (List.mem_of_head? hc))).2
  · exact fun c hc => (of_isAlphanum (h c (List.mem_of_getLast? hc))).2

-- ============================================================== tokens

/-- What is looked at of a header, said of the octets of its value. -/
theorem authorization?_shows_iff {value : String} :
    authorization? r = some value
      ↔ value ≠ "" ∧ Tight value ∧ (∀ c ∈ value.toList, Header.Readable c)
        ∧ ∃ h before after, r.headers.find? (·.name == "authorization") = some h
          ∧ IsGap before ∧ IsGap after
          ∧ h.value = Utf8.bytes (before ++ value ++ after) := by
  rw [authorization?_eq_some_iff]
  constructor
  -- the value stands between two gaps, since only gaps are trimmed
  · rintro ⟨text, ⟨h, hfind, htext⟩, htrim, hne⟩
    obtain ⟨hoctets, hreadable⟩ := Header.text?_eq_some_iff.1 htext
    obtain ⟨htight, before, after, hbefore, hafter, rfl⟩ :=
      Text.trim_eq_iff.1 htrim
    simp only [String.toList_append, List.mem_append] at hreadable
    refine ⟨hne, htight, fun c hc => hreadable c (by simp [hc]), h, before, after,
      hfind, ?_, ?_, hoctets⟩
    · exact isGap_of_blanks hbefore fun c hc => hreadable c (by simp [hc])
    · exact isGap_of_blanks hafter fun c hc => hreadable c (by simp [hc])
  · rintro ⟨hne, htight, hreadable, h, before, after, hfind, hbefore, hafter,
      hoctets⟩
    refine ⟨_, ⟨h, hfind, Header.text?_eq_some_iff.2 ⟨hoctets, fun c hc => ?_⟩⟩,
      Text.trim_eq_iff.2 ⟨htight, before, after, blanks_of_isGap hbefore,
        blanks_of_isGap hafter, rfl⟩, hne⟩
    simp only [String.toList_append, List.mem_append] at hc
    rcases hc with (hc | hc) | hc
    · exact readable_of_isGap hbefore c hc
    · exact hreadable c hc
    · exact readable_of_isGap hafter c hc

/-- What is found behind a word. -/
theorem afterWord?_shows_iff {value : String}
    (hword : ∀ c ∈ word.toList, c.isAlphanum = true) :
    afterWord? word value = some token
      ↔ token ≠ "" ∧ Tight token
        ∧ ∃ written gap behind, Scheme.sameWord written word = true
          ∧ Blanks gap ∧ Blanks behind
          ∧ value = written ++ " " ++ (gap ++ token ++ behind) := by
  rw [afterWord?_eq_some_iff]
  constructor
  · rintro ⟨written, rest, rfl, -, hsame, rfl, hne⟩
    obtain ⟨htight, gap, behind, hgap, hbehind, hrest⟩ :=
      Text.trim_eq_iff.1 (rfl : Text.trim rest = Text.trim rest)
    exact ⟨hne, htight, written, gap, behind, hsame, hgap, hbehind,
      congrArg _ hrest⟩
  · rintro ⟨hne, htight, written, gap, behind, hsame, hgap, hbehind, rfl⟩
    refine ⟨written, _, rfl, ?_, hsame, ?_, hne⟩
    · intro hspace
      exact absurd (isAlphanum_of_sameWord hword hsame _ hspace) (by decide)
    · exact (Text.trim_eq_iff.2 ⟨htight, gap, behind, hgap, hbehind, rfl⟩).symm

/-- A token is found where one is shown, if it is not empty, no blanks stand at
its ends and it can be read. -/
theorem bind_afterWord?_eq_some_iff (hne : word ≠ "")
    (hword : ∀ c ∈ word.toList, c.isAlphanum = true) :
    (authorization? r).bind (afterWord? word) = some token
      ↔ token ≠ "" ∧ Tight token ∧ (∀ c ∈ token.toList, Header.Readable c)
        ∧ ∃ h, r.headers.find? (·.name == "authorization") = some h
          ∧ Shows word token h.value := by
  rw [Option.bind_eq_some_iff]
  simp only [authorization?_shows_iff, afterWord?_shows_iff hword]
  constructor
  · rintro ⟨_, ⟨-, -, hreadable, h, before, after, hfind, hbefore, hafter,
      hoctets⟩, htoken, htight, written, gap, behind, hsame, hgap, hbehind, rfl⟩
    simp only [String.toList_append, List.mem_append] at hreadable
    refine ⟨htoken, htight, fun c hc => hreadable c (by simp [hc]), h, hfind,
      before, written, gap, behind ++ after, hbefore, ?_, ?_, hsame, ?_⟩
    · exact isGap_of_blanks hgap fun c hc => hreadable c (by simp [hc])
    · intro c hc
      rw [String.toList_append, List.mem_append] at hc
      rcases hc with hc | hc
      · have hread (c : Char) (hc : c ∈ behind.toList) : Header.Readable c :=
          hreadable c (by simp [hc])
        exact isGap_of_blanks hbehind hread c hc
      · exact hafter c hc
    · rw [hoctets]
      simp only [String.append_assoc]
  · rintro ⟨htoken, htight, hreadable, h, hfind, before, written, gap, after,
      hbefore, hgap, hafter, hsame, hoctets⟩
    -- the word and the token keep the blanks between them off the ends
    have halnum := isAlphanum_of_sameWord hword hsame
    have hwhole := (tight_of_isAlphanum halnum).around htight
      (ne_empty_of_sameWord hne hsame) htoken (" " ++ gap)
    refine ⟨written ++ (" " ++ gap) ++ token, ⟨?_, hwhole, fun c hc => ?_, h,
      before, after, hfind, hbefore, hafter, ?_⟩, htoken, htight, written, gap, "",
      hsame, blanks_of_isGap hgap, fun c hc => absurd hc List.not_mem_nil, ?_⟩
    · exact fun hempty => htoken (String.append_eq_empty_iff.1 hempty).2
    · simp only [String.toList_append, List.mem_append] at hc
      rcases hc with (hc | hc | hc) | hc
      · exact (of_isAlphanum (halnum c hc)).1
      · obtain rfl := List.mem_singleton.1 hc
        decide
      · exact readable_of_isGap hgap c hc
      · exact hreadable c hc
    · rw [hoctets]
      simp only [String.append_assoc]
    · simp only [String.append_assoc, String.append_empty]

-- ========================================================= both halves

/-- The tokens of the basic scheme are made of letters, digits and three signs. -/
theorem of_mem_pairToken {c : Char} (hc : c ∈ (pairToken user password).toList) :
    Header.Readable c ∧ Text.isBlank c = false := by
  have hall : ('=' :: Text.Base64.alphabet).all
      (fun c => decide (Header.Readable c) && !Text.isBlank c) = true := by
    decide +kernel
  rw [pairToken, String.toList_ofList] at hc
  simpa using List.all_eq_true.1 hall c (Text.Base64.mem_encode c hc)

/-- The token of a pair is not empty, since it stands for a colon at least. -/
theorem pairToken_ne_empty : pairToken user password ≠ "" := by
  intro h
  have hnil := congrArg String.toList h
  rw [pairToken, String.toList_ofList] at hnil
  have hoctets := Text.Base64.encode_eq_nil_iff.1 hnil
  rw [Text.Utf8.bytes_append, Text.Utf8.bytes_append,
    Text.Utf8.bytes_eq ":"] at hoctets
  exact absurd (List.append_eq_nil_iff.1 (List.append_eq_nil_iff.1 hoctets).1).2
    (by decide)

/-- A token stands for the user name and the password that it is made from. -/
theorem userAndPassword?_eq_some_iff :
    userAndPassword? token = some (user, password)
      ↔ user ≠ "" ∧ ':' ∉ user.toList ∧ token = pairToken user password := by
  have htoken {octets : List UInt8} : token.toList = Text.Base64.encode octets
      ↔ token = String.ofList (Text.Base64.encode octets) := by
    rw [← String.toList_inj, String.toList_ofList]
  simp only [userAndPassword?, Option.bind_eq_bind, Option.bind_eq_some_iff,
    Text.Base64.decode?_eq_some_iff, Text.Utf8.decode?_eq_some_iff, htoken]
  constructor
  · rintro ⟨_, rfl, chars, rfl, ⟨_, _⟩, hcut, h⟩
    -- the token is decoded, and cut at its first colon
    obtain ⟨hchars, hcolon⟩ := cutAt_eq_some_iff.1 hcut
    obtain ⟨hne, h⟩ := Option.ite_none_left_eq_some.1 h
    cases h
    refine ⟨fun hempty => hne (by rw [hempty]; rfl), hcolon, ?_⟩
    have hlist := congrArg String.toList hchars
    rw [String.toList_ofList] at hlist
    rw [pairToken, Text.Utf8.bytes_eq, hlist]
    rfl
  · rintro ⟨hne, hcolon, rfl⟩
    refine ⟨_, rfl, (user ++ ":" ++ password).toList, Text.Utf8.bytes_eq _,
      (user, password), ?_, ?_⟩
    · rw [String.ofList_toList]
      exact cutAt_eq_some_iff.2 ⟨rfl, hcolon⟩
    · exact if_neg (by simpa using hne)

/-- A pair is found where a token for it is. -/
theorem basic?_eq_some_iff : basic? r = some (.basic user password)
    ↔ ∃ token, (authorization? r).bind (afterWord? "basic") = some token
        ∧ userAndPassword? token = some (user, password) := by
  simp only [basic?, Option.bind_eq_bind, Option.bind_eq_some_iff]
  constructor
  · rintro ⟨value, hvalue, token, htoken, ⟨_, _⟩, hpair, h⟩
    cases h
    exact ⟨token, ⟨value, hvalue, htoken⟩, hpair⟩
  · rintro ⟨token, ⟨value, hvalue, htoken⟩, hpair⟩
    exact ⟨value, hvalue, token, htoken, _, hpair, rfl⟩

/-- What is found as a bearer token is no pair. -/
theorem bearer?_ne_basic : bearer? r ≠ some (.basic user password) := by
  intro h
  obtain ⟨_, -, h⟩ := Option.bind_eq_some_iff.1 h
  obtain ⟨_, -, h⟩ := Option.bind_eq_some_iff.1 h
  cases h

/-- No scheme but that of the word finds a user name and a password. -/
theorem credential?_eq_basic_iff {scheme : Scheme} :
    scheme.credential? r = some (.basic user password)
      ↔ (∃ word, scheme = .http word ∧ Scheme.sameWord word "basic" = true)
        ∧ basic? r = some (.basic user password) := by
  constructor
  · intro h
    -- only a scheme of HTTP looks for a pair, and only under its own word
    cases scheme with
    | http word =>
        unfold Scheme.credential? at h
        dsimp only at h
        split at h
        · next hsame => exact ⟨⟨word, rfl, hsame⟩, h⟩
        split at h
        · exact absurd h bearer?_ne_basic
        · obtain ⟨_, -, h⟩ := Option.map_eq_some_iff.1 h
          cases h
    | apiKey name place =>
        obtain ⟨_, -, h⟩ := Option.map_eq_some_iff.1 h
        cases h
    | oauth2 => exact absurd h bearer?_ne_basic
    | openIdConnect => exact absurd h bearer?_ne_basic
    | mutualTls => cases h
  · rintro ⟨⟨word, rfl, hsame⟩, h⟩
    unfold Scheme.credential?
    dsimp only
    rw [if_pos hsame, h]

-- ============================================================ main result

/-- A request shows a user name and a password to a scheme just when this is one
of the word `basic`, the user name is not empty and holds no colon, and behind the
word stands the token that the two make. A token is the base 64 form of the octets
of both with a colon between, and it is decoded to just these. -/
theorem basic_exact (scheme : Scheme) (r : Request) (user password : String) :
    (scheme.credential? r = some (.basic user password)
      ↔ (∃ word, scheme = .http word ∧ Scheme.sameWord word "basic" = true)
        ∧ user ≠ "" ∧ ':' ∉ user.toList
        ∧ ∃ h, r.headers.find? (·.name == "authorization") = some h
          ∧ Shows "basic" (pairToken user password) h.value)
    ∧ Base64.decode? (pairToken user password).toList
      = some (Utf8.bytes (user ++ ":" ++ password)) := by
  -- a token consists of signs that can be read and are no blanks
  have htight : Tight (pairToken user password) :=
    ⟨fun c hc => (of_mem_pairToken (List.mem_of_head? hc)).2,
      fun c hc => (of_mem_pairToken (List.mem_of_getLast? hc)).2⟩
  have hreadable : ∀ c ∈ (pairToken user password).toList, Header.Readable c :=
    fun c hc => (of_mem_pairToken hc).1
  have hword : ∀ c ∈ "basic".toList, c.isAlphanum = true :=
    List.all_eq_true.1 rfl
  constructor
  · rw [credential?_eq_basic_iff, basic?_eq_some_iff]
    simp only [userAndPassword?_eq_some_iff,
      bind_afterWord?_eq_some_iff (by decide) hword]
    constructor
    · rintro ⟨hscheme, _, ⟨-, -, -, hshown⟩, hne, hcolon, rfl⟩
      exact ⟨hscheme, hne, hcolon, hshown⟩
    · rintro ⟨hscheme, hne, hcolon, hshown⟩
      exact ⟨hscheme, _, ⟨pairToken_ne_empty, htight, hreadable, hshown⟩, hne,
        hcolon, rfl⟩
  · exact Text.Base64.decode?_eq_some_iff.2 (String.toList_ofList ..)

/-- A request with the credentials of Alice behind another header, the word of the
scheme in mixed case and three spaces. -/
def aliceRequest : Request :=
  { (default : Request) with
    headers := [{ name := "accept", value := Utf8.bytes "*/*" },
      { name := "authorization",
        value := Utf8.bytes "bASIC   YWxpY2U6c2U6Y3LDqXQ=" }] }

/-- Her password has a colon, and a letter of two octets. -/
theorem basic_exact_alice :
    (Scheme.http "Basic").credential? aliceRequest
        = some (.basic "alice" "se:crét")
      ∧ Base64.decode? (pairToken "alice" "se:crét").toList
        = some (Utf8.bytes ("alice" ++ ":" ++ "se:crét")) := by
  obtain ⟨hexact, hdecode⟩ :=
    basic_exact (.http "Basic") aliceRequest "alice" "se:crét"
  have htoken : pairToken "alice" "se:crét" = "YWxpY2U6c2U6Y3LDqXQ=" := by
    have hchars : Text.Base64.encode
        (Text.Utf8.encode ("alice" ++ ":" ++ "se:crét").toList)
          = "YWxpY2U6c2U6Y3LDqXQ=".toList := by
      decide +kernel
    rw [pairToken, Text.Utf8.bytes_eq, hchars, String.ofList_toList]
  -- the header is cut into word, gap and token
  have hshown : Shows "basic" (pairToken "alice" "se:crét")
      (Utf8.bytes "bASIC   YWxpY2U6c2U6Y3LDqXQ=") := by
    have hnone : IsGap "" := fun c hc => absurd hc List.not_mem_nil
    have hgap : IsGap "  " := fun c hc => .inl (by simpa using hc)
    have hsame : Scheme.sameWord "bASIC" "basic" = true :=
      sameWord_iff.2 (by decide)
    refine ⟨"", "bASIC", "  ", "", hnone, hgap, hnone, hsame, ?_⟩
    rw [htoken]
    exact congrArg Utf8.bytes (by decide)
  have hfind : aliceRequest.headers.find? (·.name == "authorization")
      = some { name := "authorization",
               value := Utf8.bytes "bASIC   YWxpY2U6c2U6Y3LDqXQ=" } := by
    simp [aliceRequest]
  refine ⟨hexact.2 ?_, hdecode⟩
  refine ⟨⟨"Basic", rfl, sameWord_iff.2 (by decide)⟩, by decide, by decide, ?_⟩
  exact ⟨_, hfind, hshown⟩

end ApiForge.Auth
