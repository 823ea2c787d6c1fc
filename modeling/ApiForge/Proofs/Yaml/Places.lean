import ApiForge.Proofs.Json.Form
import ApiForge.Proofs.Text.Ascii
import ApiForge.Proofs.Text.Utf8
import ApiForge.Yaml.Token
/-!
JSON text as a YAML stream places it.

Most characters of JSON text are `Flat`: they end no line, so the next one stands in
the next column of the same line, as many octets further as the character has
(`placeFrom_flat`). Only white space between tokens ends lines. What a place is
matters in three respects: a key and its colon stand on one line, not too far from
each other; nothing inside quotes stands in the first column, where a document might
end; and every token takes cells, of which there are the fewer the less text is left
(`length_placeFrom_le`).
-/

namespace ApiForge.Yaml

open Text.Utf8 (encode)

-- ========================================================== characters

/-- A character that ends no line, and no other is put in its place. -/
def Flat (c : Char) : Prop := isBreak c = false ∧ c ≠ '\r' ∧ c ≠ '\u0085'

instance (c : Char) : Decidable (Flat c) := inferInstanceAs (Decidable (_ ∧ _))

/-- The characters with which a token of JSON text begins. -/
def isTokenStart (c : Char) : Bool :=
  c.isAlphanum || c == '[' || c == ']' || c == '\x7b' || c == '\x7d' || c == ',' || c == ':'
    || c == '"' || c == '-'

/-- What starts a token is ASCII. -/
theorem toNat_lt_of_isTokenStart {c : Char} (h : isTokenStart c = true) : c.toNat < 128 := by
  simp only [isTokenStart, Bool.or_eq_true, beq_iff_eq] at h
  rcases h with (((((((h | rfl) | rfl) | rfl) | rfl) | rfl) | rfl) | rfl) | rfl
  · exact ApiForge.Text.toNat_lt_of_isAlphanum h
  all_goals decide

/-- Where a token begins there is nothing to be skipped. -/
theorem of_isTokenStart {c : Char} (h : isTokenStart c = true) :
    Flat c ∧ isBlank c = false ∧ isEnd c = false ∧ isMark c = false ∧ c ≠ '#' ∧ c ≠ '\n' := by
  refine ApiForge.Text.forall_ascii (P := fun c => isTokenStart c = true →
    Flat c ∧ isBlank c = false ∧ isEnd c = false ∧ isMark c = false ∧ c ≠ '#' ∧ c ≠ '\n')
    ?_ (toNat_lt_of_isTokenStart h) h
  decide +kernel

-- ============================================================== places

variable {o n k : Nat} {cs rest : List Char} {c : Char}

/-- A character that ends no line has a cell of its own, and the next one stands behind
it on the line. -/
theorem placeFrom_flat (h : Flat c) :
    placeFrom o n k (c :: rest)
      = ⟨c, o, n, k⟩ :: placeFrom (o + c.utf8Size) n (k + 1) rest := by
  obtain ⟨hbreak, hreturn, hnext⟩ := h
  have hsame : (if c == '\r' || c == '\u0085' then '\n' else c) = c := by
    simp [hreturn, hnext]
  rw [placeFrom]
  · rw [hsame, hbreak]
    rfl
  · exact fun _ h => absurd h hreturn

/-- A line that ends with one character. -/
theorem placeFrom_feed (hc : c = '\n' ∨ c = '\r' ∧ rest.head? ≠ some '\n') :
    placeFrom o n k (c :: rest)
      = ⟨'\n', o, n, k⟩ :: placeFrom (o + c.utf8Size) (n + 1) 0 rest := by
  rw [placeFrom]
  · rcases hc with rfl | ⟨rfl, -⟩ <;> rfl
  · rintro rest' rfl rfl
    rcases hc with hc | ⟨-, hrest⟩
    · exact absurd hc (by decide)
    · exact hrest rfl

theorem placeFrom_both :
    placeFrom o n k ('\r' :: '\n' :: rest)
      = ⟨'\n', o, n, k⟩ :: placeFrom (o + 2) (n + 1) 0 rest := rfl

/-- The number of cells does not depend on where the text begins. -/
theorem length_placeFrom (o n k o' n' k' : Nat) (cs : List Char) :
    (placeFrom o n k cs).length = (placeFrom o' n' k' cs).length := by
  fun_induction placeFrom o n k cs generalizing o' n' k' with
  | case1 => rfl
  | case2 o n k rest ih =>
      rw [placeFrom_both, List.length_cons, List.length_cons, ih]
  | case3 o n k c rest h next d ihline ih =>
      rw [placeFrom.eq_3 _ _ _ _ _ h, List.length_cons, List.length_cons]
      split
      · rw [ihline]
      · rw [ih]

/-- There are no more cells of what is left of a text than of the text. -/
theorem length_placeFrom_le (o n k o' n' k' : Nat) (cs rest : List Char) :
    (placeFrom o n k rest).length ≤ (placeFrom o' n' k' (cs ++ rest)).length := by
  have hcons (o n k o' n' k' : Nat) (c : Char) (rest : List Char) :
      (placeFrom o n k rest).length ≤ (placeFrom o' n' k' (c :: rest)).length := by
    by_cases hboth : ∃ rest', c = '\r' ∧ rest = '\n' :: rest'
    · obtain ⟨rest', rfl, rfl⟩ := hboth
      refine Nat.le_of_eq ?_
      rw [placeFrom_both, placeFrom_feed (.inl rfl), List.length_cons, List.length_cons,
        length_placeFrom _ _ _ (o' + 2) (n' + 1) 0]
    · have hplain : ∀ rest', c = '\r' → rest = '\n' :: rest' → False :=
        fun rest' hc hrest => hboth ⟨rest', hc, hrest⟩
      rw [placeFrom.eq_3 _ _ _ _ _ hplain, List.length_cons]
      refine Nat.le_succ_of_le (Nat.le_of_eq ?_)
      split <;> split <;> exact length_placeFrom ..
  induction cs generalizing o' n' k' with
  | nil => exact Nat.le_of_eq (length_placeFrom ..)
  | cons c cs ih => exact Nat.le_trans (ih 0 0 0) (hcons ..)

-- ============================================================= skipping

/-- A token begins here, or the text has ended. -/
def Starts (cs : List Char) : Prop := ∀ c ∈ cs.head?, isTokenStart c = true

theorem starts_cons (hc : isTokenStart c = true) (rest : List Char) : Starts (c :: rest) := by
  intro d hd
  rw [List.head?_cons, Option.mem_some_iff] at hd
  exact hd ▸ hc

/-- Where a token begins nothing is skipped. -/
theorem skipSpace_starts (flow allowed : Bool) (h : Starts cs) :
    Lexer.skipSpace flow allowed false (placeFrom o n k cs)
      = (allowed, placeFrom o n k cs) := by
  cases cs with
  | nil => rfl
  | cons c rest =>
      obtain ⟨hflat, hblank, hend, hmark, hnumber, -⟩ := of_isTokenStart (h c rfl)
      obtain ⟨hspace, htab⟩ : (c == ' ') = false ∧ (c == '\t') = false :=
        Bool.or_eq_false_iff.1 hblank
      rw [placeFrom_flat hflat, Lexer.skipSpace]
      simp only [hflat.1, hend, hspace, htab, hmark, beq_eq_false_iff_ne.2 hnumber]
      rfl

/-- A gap is cells of blanks and of line ends. -/
theorem exists_gap_cells (g : Json.Gap) (h : Starts cs) (o n k : Nat) :
    ∃ cells o' n' k', placeFrom o n k (g.chars ++ cs) = cells ++ placeFrom o' n' k' cs
      ∧ ∀ c ∈ cells, c.char = ' ' ∨ c.char = '\n' ∨ c.char = '\t' ∧ .tab ∈ g := by
  have hcons {o n k : Nat} {d : Char} {g g' : Json.Gap} {cells : List Cell}
      (hd : d = ' ' ∨ d = '\n' ∨ d = '\t' ∧ .tab ∈ g') (hg : g ⊆ g')
      (hcells : ∃ cells' o' n' k', cells = cells' ++ placeFrom o' n' k' cs
        ∧ ∀ c ∈ cells', c.char = ' ' ∨ c.char = '\n' ∨ c.char = '\t' ∧ .tab ∈ g) :
      ∃ cells' o' n' k', ⟨d, o, n, k⟩ :: cells = cells' ++ placeFrom o' n' k' cs
        ∧ ∀ c ∈ cells', c.char = ' ' ∨ c.char = '\n' ∨ c.char = '\t' ∧ .tab ∈ g' := by
    obtain ⟨cells', o', n', k', rfl, hspace⟩ := hcells
    refine ⟨_ :: cells', o', n', k', rfl, List.forall_mem_cons.2 ⟨hd, fun c hc => ?_⟩⟩
    exact (hspace c hc).imp_right fun h => h.imp_right fun h => ⟨h.1, hg h.2⟩
  have hsub {w : Json.White} {g : Json.Gap} : g ⊆ w :: g := List.subset_cons_self w g
  -- a carriage return and the line feed behind it are one line end
  match g with
  | [] => exact ⟨[], o, n, k, rfl, fun c hc => absurd hc List.not_mem_nil⟩
  | .space :: g => exact hcons (.inl rfl) hsub (exists_gap_cells g h (o + 1) n (k + 1))
  | .tab :: g =>
      exact hcons (.inr (.inr ⟨rfl, List.mem_cons_self⟩)) hsub
        (exists_gap_cells g h (o + 1) n (k + 1))
  | .feed :: g =>
      exact hcons (.inr (.inl rfl)) hsub (exists_gap_cells g h (o + 1) (n + 1) 0)
  | .ret :: .feed :: g =>
      exact hcons (.inr (.inl rfl)) (List.Subset.trans hsub hsub)
        (exists_gap_cells g h (o + 2) (n + 1) 0)
  | [.ret] =>
      have hhead : cs.head? ≠ some '\n' := fun hcs => absurd (h '\n' hcs) (by decide)
      show ∃ cells' o' n' k', placeFrom o n k ('\r' :: cs) = cells' ++ _ ∧ _
      rw [placeFrom_feed (.inr ⟨rfl, hhead⟩)]
      exact hcons (.inr (.inl rfl)) hsub (exists_gap_cells [] h (o + 1) (n + 1) 0)
  | .ret :: .space :: g =>
      exact hcons (.inr (.inl rfl)) hsub
        (exists_gap_cells (.space :: g) h (o + 1) (n + 1) 0)
  | .ret :: .tab :: g =>
      exact hcons (.inr (.inl rfl)) hsub
        (exists_gap_cells (.tab :: g) h (o + 1) (n + 1) 0)
  | .ret :: .ret :: g =>
      exact hcons (.inr (.inl rfl)) hsub
        (exists_gap_cells (.ret :: g) h (o + 1) (n + 1) 0)

/-- A gap is skipped, which forbids no key. Outside of flow collections there may be no
tab in it. -/
theorem skipSpace_gap {flow : Bool} (allowed : Bool) (g : Json.Gap)
    (hflow : flow = true ∨ .tab ∉ g) (h : Starts cs) (o n k : Nat) :
    ∃ allowed' o' n' k',
      Lexer.skipSpace flow allowed false (placeFrom o n k (g.chars ++ cs))
          = (allowed', placeFrom o' n' k' cs)
        ∧ (allowed = true → allowed' = true) := by
  obtain ⟨cells, o', n', k', hcells, hspace⟩ := exists_gap_cells g h o n k
  rw [hcells]
  clear hcells
  induction cells generalizing allowed with
  | nil =>
      exact ⟨allowed, o', n', k', skipSpace_starts flow allowed h, fun h => h⟩
  | cons c cells ih =>
      obtain ⟨hc, hrest⟩ := List.forall_mem_cons.1 hspace
      obtain ⟨char, _, _, _⟩ := c
      rcases hc with rfl | rfl | ⟨rfl, htab⟩
      · exact ih allowed hrest
      · obtain ⟨allowed', o', n', k', hskip, hkept⟩ := ih (allowed || !flow) hrest
        exact ⟨allowed', o', n', k', hskip, fun ha => hkept (by rw [ha]; rfl)⟩
      · obtain rfl : flow = true := hflow.resolve_right fun h => h htab
        exact ih allowed hrest

/-- Blanks are skipped within their line. -/
theorem skipSpace_blanks {flow allowed : Bool} (hflow : flow = true ∨ allowed = false)
    {g : Json.Gap} (hg : ∀ w ∈ g, w = .space ∨ w = .tab) (cs : List Char) (o n k : Nat) :
    Lexer.skipSpace flow allowed false (placeFrom o n k (g.chars ++ cs))
      = Lexer.skipSpace flow allowed false
          (placeFrom (o + g.length) n (k + g.length) cs) := by
  induction g generalizing o k with
  | nil => rfl
  | cons w g ih =>
      obtain ⟨hw, hg⟩ := List.forall_mem_cons.1 hg
      have hnext := ih hg (o + 1) (k + 1)
      rw [Nat.add_assoc, Nat.add_assoc, Nat.add_comm 1] at hnext
      rcases hw with rfl | rfl
      · exact hnext
      · refine Eq.trans ?_ hnext
        rcases hflow with rfl | rfl
        · rfl
        · cases flow <;> rfl

end ApiForge.Yaml
