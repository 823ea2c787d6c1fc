import ApiForge.Proofs.Yaml.Shared
/-!
The tokens of JSON text, read as a YAML document.

The reader of nodes takes a value's tokens away and answers its node, whatever tokens
come after them (`takes_tokens`). It goes by the recursion of the form; each round of
the reader uses up at least one token, so the number of tokens is enough fuel.
-/

namespace ApiForge.Yaml.Node

open Json (Form Key plainText)

variable {α β : Type} {ts us : List Token} {fuel : Nat}

/-- A step takes the tokens and answers `a`, whatever comes after them. -/
def Takes (m : Reader α) (ts : List Token) (a : α) : Prop :=
  ∀ (s : State) (rest : List Token),
    m.run { s with tokens := ts ++ rest } = some (a, { s with tokens := rest })

theorem Takes.bind {m : Reader α} {k : α → Reader β} {a : α} {b : β} (hm : Takes m ts a)
    (hk : Takes (k a) us b) : Takes (m >>= k) (ts ++ us) b := by
  intro s rest
  rw [StateT.run_bind, List.append_assoc, hm s (us ++ rest)]
  exact hk s rest

/-- What is made of a step's answer takes no tokens. -/
theorem Takes.map {m : Reader α} {a : α} (hm : Takes m ts a) (k : α → β) :
    Takes (m >>= fun a => pure (k a)) ts (k a) := by
  intro s rest
  rw [StateT.run_bind, hm s rest]
  rfl

-- ============================================================== rounds

/-- A scalar is read from its token. -/
theorem takes_scalar (inBlock : Bool) (hfuel : 1 ≤ fuel) (text : String)
    (style : ScalarStyle) :
    Takes (readNode inBlock false fuel) [.scalar text style] (.scalar none text style) := by
  obtain ⟨fuel, rfl⟩ := Nat.exists_eq_add_of_le' hfuel
  exact fun _ _ => rfl

theorem takes_seq {inBlock : Bool} {items : List Node}
    (h : Takes (readFlowItems true fuel) ts items) :
    Takes (readNode inBlock false (fuel + 1)) (.flowSequenceStart :: ts) (.seq none items) :=
  fun s rest => h.map (Node.seq none) s rest

theorem takes_map {inBlock : Bool} {bindings : List (Node × Node)}
    (h : Takes (readFlowBindings true fuel) ts bindings) :
    Takes (readNode inBlock false (fuel + 1)) (.flowMappingStart :: ts)
      (.map none bindings) :=
  fun s rest => h.map (Node.map none) s rest

/-- The token with which a value begins tells it from the end of a list and from an
entry that is a binding. -/
theorem exists_head_tokens (f : Form) :
    ∃ t ts, f.tokens = t :: ts
      ∧ (t = .flowSequenceStart ∨ t = .flowMappingStart
        ∨ ∃ text style, t = .scalar text style) := by
  cases f with
  | null => exact ⟨_, _, rfl, .inr (.inr ⟨_, _, rfl⟩)⟩
  | bool b => exact ⟨_, _, rfl, .inr (.inr ⟨_, _, rfl⟩)⟩
  | number n => exact ⟨_, _, rfl, .inr (.inr ⟨_, _, rfl⟩)⟩
  | string atoms => exact ⟨_, _, rfl, .inr (.inr ⟨_, _, rfl⟩)⟩
  | noItems gap => exact ⟨_, _, rfl, .inl rfl⟩
  | items first rest => exact ⟨_, _, rfl, .inl rfl⟩
  | noMembers gap => exact ⟨_, _, rfl, .inr (.inl rfl)⟩
  | members first rest => exact ⟨_, _, rfl, .inr (.inl rfl)⟩

theorem length_tokens_pos (f : Form) : 1 ≤ f.tokens.length := by
  obtain ⟨t, ts, hf, -⟩ := exists_head_tokens f
  rw [hf]
  exact Nat.succ_le_succ (Nat.zero_le _)

theorem length_itemTokens_pos (rest : List (Json.Slot Form)) :
    1 ≤ (Form.itemTokens rest).length := by
  cases rest with
  | nil => exact Nat.le_refl 1
  | cons i rest => exact Nat.succ_le_succ (Nat.zero_le _)

theorem length_memberTokens_pos (rest : List (Key × Json.Slot Form)) :
    1 ≤ (Form.memberTokens rest).length := by
  cases rest with
  | nil => exact Nat.le_refl 1
  | cons m rest => exact Nat.succ_le_succ (Nat.zero_le _)

/-- An item where no comma is due. -/
theorem takes_first_item {f : Form} {items : List Node}
    (hf : Takes (readNode false false fuel) f.tokens f.node)
    (hrest : Takes (readFlowItems false fuel) ts items) :
    Takes (readFlowItems true (fuel + 1)) (f.tokens ++ ts) (f.node :: items) := by
  have hboth := hf.bind (k := fun n => do return n :: (← readFlowItems false fuel))
    (hrest.map (f.node :: ·))
  obtain ⟨t, us, htokens, hhead⟩ := exists_head_tokens f
  rw [htokens] at hboth ⊢
  intro s rest
  rw [← hboth s rest]
  rcases hhead with rfl | rfl | ⟨_, _, rfl⟩ <;> rfl

/-- An item behind its comma. -/
theorem takes_item {f : Form} {items : List Node}
    (hf : Takes (readNode false false fuel) f.tokens f.node)
    (hrest : Takes (readFlowItems false fuel) ts items) :
    Takes (readFlowItems false (fuel + 1)) (.flowEntry :: (f.tokens ++ ts))
      (f.node :: items) := by
  intro s rest
  rw [← takes_first_item hf hrest s rest]
  obtain ⟨t, us, htokens, hhead⟩ := exists_head_tokens f
  rw [htokens]
  rcases hhead with rfl | rfl | ⟨_, _, rfl⟩ <;> rfl

/-- A member where no comma is due. -/
theorem takes_first_member {f : Form} {bindings : List (Node × Node)} (key : String)
    (hfuel : 1 ≤ fuel) (hf : Takes (readNode false false fuel) f.tokens f.node)
    (hrest : Takes (readFlowBindings false fuel) ts bindings) :
    Takes (readFlowBindings true (fuel + 1))
      (.key :: .scalar key .quoted :: .value :: (f.tokens ++ ts))
      ((.scalar none key .quoted, f.node) :: bindings) := by
  have hboth := hf.bind
    (k := fun n => do
      return (Node.scalar none key .quoted, n) :: (← readFlowBindings false fuel))
    (hrest.map ((Node.scalar none key .quoted, f.node) :: ·))
  obtain ⟨fuel, rfl⟩ := Nat.exists_eq_add_of_le' hfuel
  obtain ⟨t, us, htokens, hhead⟩ := exists_head_tokens f
  rw [htokens] at hboth ⊢
  intro s rest
  rw [← hboth s rest]
  rcases hhead with rfl | rfl | ⟨_, _, rfl⟩ <;> rfl

/-- A member behind its comma. -/
theorem takes_member {f : Form} {bindings : List (Node × Node)} (key : String)
    (hfuel : 1 ≤ fuel) (hf : Takes (readNode false false fuel) f.tokens f.node)
    (hrest : Takes (readFlowBindings false fuel) ts bindings) :
    Takes (readFlowBindings false (fuel + 1))
      (.flowEntry :: .key :: .scalar key .quoted :: .value :: (f.tokens ++ ts))
      ((.scalar none key .quoted, f.node) :: bindings) := by
  intro s rest
  rw [← takes_first_member key hfuel hf hrest s rest]
  rfl

-- =============================================================== values

mutual

/-- The tokens of a value are read as its node. -/
theorem takes_tokens (f : Form) (inBlock : Bool) {fuel : Nat}
    (hfuel : f.tokens.length ≤ fuel) :
    Takes (readNode inBlock false fuel) f.tokens f.node := by
  match f with
  | .null => exact takes_scalar inBlock hfuel _ _
  | .bool b => exact takes_scalar inBlock hfuel _ _
  | .number n => exact takes_scalar inBlock hfuel _ _
  | .string atoms => exact takes_scalar inBlock hfuel _ _
  | .noItems gap =>
      obtain ⟨fuel, rfl⟩ := Nat.exists_eq_add_of_le' hfuel
      exact takes_seq fun _ _ => rfl
  | .noMembers gap =>
      obtain ⟨fuel, rfl⟩ := Nat.exists_eq_add_of_le' hfuel
      exact takes_map fun _ _ => rfl
  | .items ⟨before, f, after⟩ rest =>
      -- two rounds go to the bracket and the item, and the rest has fuel left
      have hf := length_tokens_pos f
      have hrest := length_itemTokens_pos rest
      rw [Form.tokens, List.length_cons, List.length_append] at hfuel
      obtain ⟨fuel, rfl⟩ := Nat.exists_eq_add_of_le' (show 2 ≤ fuel by omega)
      exact takes_seq (takes_first_item (takes_tokens f false (by omega))
        (takes_itemTokens rest (by omega)))
  | .members (k, ⟨before, f, after⟩) rest =>
      have hrest := length_memberTokens_pos rest
      simp only [Form.tokens, List.length_cons, List.length_append] at hfuel
      obtain ⟨fuel, rfl⟩ := Nat.exists_eq_add_of_le' (show 2 ≤ fuel by omega)
      exact takes_map (takes_first_member _ (by omega) (takes_tokens f false (by omega))
        (takes_memberTokens rest (by omega)))

/-- The tokens of further items are read as their nodes. -/
theorem takes_itemTokens (rest : List (Json.Slot Form)) {fuel : Nat}
    (hfuel : (Form.itemTokens rest).length ≤ fuel) :
    Takes (readFlowItems false fuel) (Form.itemTokens rest) (Form.itemNodes rest) := by
  match rest with
  | [] =>
      obtain ⟨fuel, rfl⟩ := Nat.exists_eq_add_of_le' hfuel
      exact fun _ _ => rfl
  | ⟨before, f, after⟩ :: rest =>
      rw [Form.itemTokens, List.length_cons, List.length_append] at hfuel
      obtain ⟨fuel, rfl⟩ := Nat.exists_eq_add_of_le' (show 1 ≤ fuel by omega)
      exact takes_item (takes_tokens f false (by omega))
        (takes_itemTokens rest (by omega))

/-- The tokens of further members are read as their nodes. -/
theorem takes_memberTokens (rest : List (Key × Json.Slot Form)) {fuel : Nat}
    (hfuel : (Form.memberTokens rest).length ≤ fuel) :
    Takes (readFlowBindings false fuel) (Form.memberTokens rest)
      (Form.memberNodes rest) := by
  match rest with
  | [] =>
      obtain ⟨fuel, rfl⟩ := Nat.exists_eq_add_of_le' hfuel
      exact fun _ _ => rfl
  | (k, ⟨before, f, after⟩) :: rest =>
      simp only [Form.memberTokens, List.length_cons, List.length_append] at hfuel
      obtain ⟨fuel, rfl⟩ := Nat.exists_eq_add_of_le' (show 1 ≤ fuel by omega)
      exact takes_member _ (by omega) (takes_tokens f false (by omega))
        (takes_memberTokens rest (by omega))

end

/-- The tokens of a value are a document, without anything to which an alias could
refer. -/
theorem ofTokens?_tokens (f : Form) :
    ofTokens? (f.tokens ++ [.streamEnd]) = some ⟨some f.node, []⟩ := by
  let start (us : List Token) : State := { tokens := us, handles := standardHandles }
  have hread : (readNode true false (3 * (f.tokens ++ [Token.streamEnd]).length + 4)).run
        (start (f.tokens ++ [.streamEnd]))
      = some (f.node, start [.streamEnd]) :=
    takes_tokens f true (by rw [List.length_append]; omega) (start []) [.streamEnd]
  obtain ⟨t, ts, htokens, hhead⟩ := exists_head_tokens f
  generalize hus : f.tokens ++ [Token.streamEnd] = us at hread
  have hplain : ofTokens? us = do
      guard (us.length == us.length)
      let r ← (readNode true false (3 * us.length + 4)).run (start us)
      guard ((r.2.tokens.dropWhile (· == .documentEnd)).head? == some .streamEnd)
      return ⟨some r.1, r.2.targets⟩ := by
    rw [htokens, List.cons_append] at hus
    subst hus
    rcases hhead with rfl | rfl | ⟨_, _, rfl⟩ <;> rfl
  have hlength : (us.length == us.length) = true := beq_self_eq_true _
  rw [hplain, hlength, hread]
  rfl

end ApiForge.Yaml.Node
