import ApiForge.Proofs.Identifier.Tokens
/-!
Where a raw name is cut.

`SplitsInto` says what tokens are without saying how they are found: the name is
gaps and tokens in turn, a gap holds neither letters nor digits, a token holds
nothing else and no lower-case letter before an upper-case one, and two tokens
with nothing between them meet at such a pair. Every list of characters can be
written so (`exists_splitsInto`), and in one way only, since a token that is
written in front is the first that is found (`tokenChars_token`). So the tokens of
a name are exactly these (`tokens_exact`).
-/

namespace ApiForge.Identifier

-- ================================================ statement vocabulary

/-- A lower-case letter followed by an upper-case one. -/
def Meets (a b : Char) : Prop :=
  a.isLower = true ∧ b.isUpper = true

instance (a b : Char) : Decidable (Meets a b) :=
  inferInstanceAs (Decidable (_ ∧ _))

/-- Letters and digits, at least one, that are nowhere to be cut. -/
structure IsToken (t : List Char) : Prop where
  nonempty : t ≠ []
  chars : ∀ c ∈ t, c.isAlphanum = true
  whole : t.IsChain fun a b => ¬ Meets a b

/-- Characters that belong to no token. -/
def IsGap (cs : List Char) : Prop :=
  ∀ c ∈ cs, c.isAlphanum = false

/-- A token with the characters between it and the one before. -/
structure Cut where
  gap : List Char
  token : List Char

namespace Cut

/-- What is written for a cut. -/
def text (k : Cut) : List Char :=
  k.gap ++ k.token

/-- A cut of a gap and a token. -/
structure Proper (k : Cut) : Prop where
  gap : IsGap k.gap
  token : IsToken k.token

/-- Two cuts that follow each other are apart in the text, or the second begins
where an upper-case letter follows a lower-case one. -/
def Apart (k l : Cut) : Prop :=
  l.gap ≠ []
    ∨ ∃ a b, k.token.getLast? = some a ∧ l.token.head? = some b ∧ Meets a b

end Cut

/-- Characters are split into tokens: they are these tokens with gaps around them,
and no two of them could be one. -/
def SplitsInto (cs : List Char) (ts : List (List Char)) : Prop :=
  ∃ cuts : List Cut, ∃ rest, cs = cuts.flatMap Cut.text ++ rest
    ∧ ts = cuts.map Cut.token
    ∧ (∀ k ∈ cuts, k.Proper) ∧ IsGap rest ∧ cuts.IsChain Cut.Apart

-- =========================================================== a token first

variable {cs t : List Char}

theorem not_joined_iff {a b : Char} : joined a b = false ↔ Meets a b := by
  unfold joined Meets
  simp

/-- A token is found whole where something else than its continuation stands
behind it. -/
theorem tokenChars_token (ht : IsToken t) {more : List Char}
    (hmore : ∀ b, more.head? = some b → b.isAlphanum = false
      ∨ ∃ a, t.getLast? = some a ∧ Meets a b) :
    tokenChars (t ++ more) = t :: tokenChars more := by
  obtain ⟨front, behind, rfl, hfront, hbehind⟩ := exists_front more
  have hwhole : t.IsChain fun a b => joined a b = true :=
    ht.whole.imp fun a b hab => by
      rwa [← not_joined_iff, Bool.not_eq_false] at hab
  -- what stands directly behind the token is split apart from it
  have hapart : ∀ a ∈ t.getLast?, ∀ b ∈ front.head?, joined a b = false := by
    intro a ha b hb
    have hhead : (front ++ behind).head? = some b := by
      rw [List.head?_append, Option.mem_def.1 hb]
      rfl
    rcases hmore b hhead with hgap | ⟨a', ha', hmeets⟩
    · rw [hfront b (List.mem_of_head? hb)] at hgap
      cases hgap
    · rw [Option.mem_def.1 ha] at ha'
      cases ha'
      exact not_joined_iff.2 hmeets
  have hsplit : List.splitBy joined (t ++ front)
      = t :: List.splitBy joined front := by
    rw [List.splitBy_append hapart, List.splitBy_of_isChain ht.nonempty hwhole,
      List.singleton_append]
  have hboth : ∀ c ∈ t ++ front, c.isAlphanum = true := by
    intro c hc
    rcases List.mem_append.1 hc with hc | hc
    · exact ht.chars c hc
    · exact hfront c hc
  rw [← List.append_assoc, tokenChars_append hboth hbehind, hsplit,
    tokenChars_append hfront hbehind, List.cons_append]

/-- A gap in front makes no difference. -/
theorem tokenChars_gap {gap : List Char} (h : IsGap gap) (cs : List Char) :
    tokenChars (gap ++ cs) = tokenChars cs := by
  have haround : ∀ c ∈ gap ++ [], c.isAlphanum = false := by
    rw [List.append_nil]
    exact h
  have hcs := tokenChars_around haround cs
  rwa [List.append_nil] at hcs

/-- What stands behind a cut is more of the text, and does not continue the
token. -/
theorem Cut.Apart.behind {k l : Cut} (h : k.Apart l) (hl : l.Proper)
    {more : List Char} {b : Char} (hb : (l.text ++ more).head? = some b) :
    b.isAlphanum = false ∨ ∃ a, k.token.getLast? = some a ∧ Meets a b := by
  unfold Cut.text at hb
  cases hgap : l.gap with
  | cons c gap =>
      left
      rw [hgap] at hb
      cases hb
      exact hl.gap b (by rw [hgap]; exact List.mem_cons_self ..)
  | nil =>
      right
      obtain ⟨a, b', ha, hb', hmeets⟩ := h.resolve_left fun hne => hne hgap
      rw [hgap, List.nil_append,
        List.head?_append_of_ne_nil _ hl.token.nonempty, hb'] at hb
      cases hb
      exact ⟨a, ha, hmeets⟩

/-- There is one way only to split characters into tokens. -/
theorem SplitsInto.eq {ts : List (List Char)} (h : SplitsInto cs ts) :
    tokenChars cs = ts := by
  obtain ⟨cuts, rest, rfl, rfl, hproper, hrest, hchain⟩ := h
  induction cuts with
  | nil => exact tokenChars_eq_nil_iff.2 hrest
  | cons k cuts ih =>
      obtain ⟨hk, hcuts⟩ := List.forall_mem_cons.1 hproper
      rw [List.isChain_cons] at hchain
      have hnext : ∀ b, (cuts.flatMap Cut.text ++ rest).head? = some b →
          b.isAlphanum = false
            ∨ ∃ a, k.token.getLast? = some a ∧ Meets a b := by
        intro b hb
        cases cuts with
        | nil => exact .inl (hrest b (List.mem_of_head? hb))
        | cons l cuts =>
            rw [List.flatMap_cons, List.append_assoc] at hb
            exact (hchain.1 l rfl).behind (hcuts l (List.mem_cons_self ..)) hb
      rw [List.flatMap_cons, List.append_assoc, Cut.text, List.append_assoc,
        tokenChars_gap hk.gap, tokenChars_token hk.token hnext,
        ih hcuts hchain.2]
      rfl

-- ========================================================= writing cuts

/-- A character that belongs to no token goes into the gap in front. -/
theorem SplitsInto.cons_gap {ts : List (List Char)} (h : SplitsInto cs ts)
    {c : Char} (hc : c.isAlphanum = false) : SplitsInto (c :: cs) ts := by
  obtain ⟨cuts, rest, rfl, rfl, hproper, hrest, hchain⟩ := h
  cases cuts with
  | nil =>
      exact ⟨[], c :: rest, rfl, rfl, hproper,
        List.forall_mem_cons.2 ⟨hc, hrest⟩, hchain⟩
  | cons k cuts =>
      obtain ⟨hk, hcuts⟩ := List.forall_mem_cons.1 hproper
      rw [List.isChain_cons] at hchain
      have hwider : (Cut.mk (c :: k.gap) k.token).Proper :=
        ⟨List.forall_mem_cons.2 ⟨hc, hk.gap⟩, hk.token⟩
      refine ⟨⟨c :: k.gap, k.token⟩ :: cuts, rest, rfl, rfl,
        List.forall_mem_cons.2 ⟨hwider, hcuts⟩, hrest, ?_⟩
      exact List.isChain_cons.2 ⟨hchain.1, hchain.2⟩

/-- A letter or a digit goes into the first token, if it stands directly in front
and is not to be cut from it; else it makes a token of its own. -/
theorem SplitsInto.cons_token {ts : List (List Char)} (h : SplitsInto cs ts)
    {c : Char} (hc : c.isAlphanum = true) :
    ∃ ts', SplitsInto (c :: cs) ts' := by
  obtain ⟨cuts, rest, rfl, -, hproper, hrest, hchain⟩ := h
  have hown : (Cut.mk [] [c]).Proper :=
    ⟨fun _ h => absurd h List.not_mem_nil, List.cons_ne_nil _ _, by simpa,
      List.isChain_singleton c⟩
  -- a token of its own, wherever the next cut is apart from it
  have halone (hapart : ∀ k ∈ cuts.head?, (Cut.mk [] [c]).Apart k) :
      ∃ ts', SplitsInto (c :: (cuts.flatMap Cut.text ++ rest)) ts' :=
    ⟨_, ⟨[], [c]⟩ :: cuts, rest, rfl, rfl,
      List.forall_mem_cons.2 ⟨hown, hproper⟩, hrest,
      List.isChain_cons.2 ⟨hapart, hchain⟩⟩
  cases cuts with
  | nil => exact halone fun k hk => absurd hk (Option.not_mem_none k)
  | cons k cuts =>
      obtain ⟨hk, hcuts⟩ := List.forall_mem_cons.1 hproper
      by_cases hgap : k.gap = []
      · obtain ⟨b, token, htoken⟩ := List.exists_cons_of_ne_nil hk.token.nonempty
        by_cases hmeets : Meets c b
        · apply halone
          intro l hl
          cases hl
          exact .inr ⟨c, b, rfl, by rw [htoken]; rfl, hmeets⟩
        · -- the token begins one character earlier
          have hlonger : (Cut.mk [] (c :: k.token)).Proper := by
            refine ⟨fun _ h => absurd h List.not_mem_nil,
              List.cons_ne_nil _ _, List.forall_mem_cons.2 ⟨hc, hk.token.chars⟩,
              List.isChain_cons.2 ⟨?_, hk.token.whole⟩⟩
            intro b' hb'
            rw [htoken] at hb'
            cases hb'
            exact hmeets
          rw [List.isChain_cons] at hchain
          refine ⟨_, ⟨[], c :: k.token⟩ :: cuts, rest, ?_, rfl,
            List.forall_mem_cons.2 ⟨hlonger, hcuts⟩, hrest,
            List.isChain_cons.2 ⟨fun l hl => ?_, hchain.2⟩⟩
          · simp [Cut.text, hgap]
          · refine (hchain.1 l hl).imp_right fun ⟨a, d, ha, hd, hmeets⟩ => ?_
            refine ⟨a, d, ?_, hd, hmeets⟩
            rw [List.getLast?_cons, ha]
            rfl
      · apply halone
        intro l hl
        cases hl
        exact .inl hgap

/-- Any characters can be split into tokens. -/
theorem exists_splitsInto (cs : List Char) : ∃ ts, SplitsInto cs ts := by
  induction cs with
  | nil =>
      exact ⟨[], [], [], rfl, rfl, fun _ h => absurd h List.not_mem_nil,
        fun _ h => absurd h List.not_mem_nil, .nil⟩
  | cons c cs ih =>
      obtain ⟨ts, h⟩ := ih
      cases hc : c.isAlphanum with
      | false => exact ⟨ts, h.cons_gap hc⟩
      | true => exact h.cons_token hc

-- ========================================================== main result

/-- What is found is how the characters are split. -/
theorem tokenChars_eq_iff {ts : List (List Char)} :
    tokenChars cs = ts ↔ SplitsInto cs ts := by
  constructor
  · rintro rfl
    obtain ⟨ts, h⟩ := exists_splitsInto cs
    rwa [h.eq]
  · exact SplitsInto.eq

/-- The tokens of a raw name are the one list into which it splits. Together they
hold its letters and digits, in order. -/
theorem tokens_exact (raw : String) :
    (∀ ts, tokens raw = ts ↔ SplitsInto raw.toList (ts.map String.toList))
      ∧ (String.join (tokens raw)).toList
        = raw.toList.filter Char.isAlphanum := by
  have hchars : (tokens raw).map String.toList = tokenChars raw.toList := by
    rw [tokens, List.map_map]
    exact List.map_id'' (fun t => String.toList_ofList) _
  refine ⟨fun ts => ?_, ?_⟩
  · rw [← tokenChars_eq_iff, ← hchars]
    constructor
    · intro h
      rw [h]
    · intro h
      exact List.map_injective_iff.2 (fun s t => String.toList_inj.1) h
  · rw [String.toList_join, ← flatten_tokenChars, ← hchars, List.flatMap_def]

example : tokens "birthDate_of HTTPUser" = ["birth", "Date", "of", "HTTPUser"] := by
  decide +kernel

end ApiForge.Identifier
