import ApiForge.Proofs.Yaml.Lexed
import ApiForge.Proofs.Yaml.Parsed
/-!
JSON text as a YAML stream, from its octets to its node.
-/

namespace ApiForge.Yaml

open Text.Utf8 (encode)
open Json (Atom Form Key keyChars quoted atomChars)

-- ========================================================== characters

/-- A stream may hold all of some characters. -/
def Allowed (cs : List Char) : Prop := ∀ c ∈ cs, isAllowed c = true

variable {cs ds : List Char}

theorem Allowed.append (hcs : Allowed cs) (hds : Allowed ds) : Allowed (cs ++ ds) :=
  List.forall_mem_append.2 ⟨hcs, hds⟩

theorem Allowed.cons {c : Char} (hc : isAllowed c = true) (hcs : Allowed cs) :
    Allowed (c :: cs) :=
  List.forall_mem_cons.2 ⟨hc, hcs⟩

theorem allowed_of_all (h : cs.all isAllowed = true) : Allowed cs :=
  List.all_eq_true.1 h

theorem allowed_gap (g : Json.Gap) : Allowed g.chars := by
  intro c hc
  obtain ⟨w, -, rfl⟩ := List.mem_map.1 hc
  cases w <;> rfl

/-- The parts of a string are allowed in a stream. -/
theorem allowed_atom {a : Atom} (ha : a.Shared) : Allowed a.chars := by
  have hhex (h : Json.Hex) : isAllowed h.char = true := by
    obtain ⟨value, upper⟩ := h
    revert value upper
    decide +kernel
  cases a with
  | plain c hc => exact .cons ha.1 fun c hc => nomatch hc
  | short e => cases e <;> exact allowed_of_all rfl
  | unit a b c d =>
      exact .cons rfl (.cons rfl (.cons (hhex a) (.cons (hhex b) (.cons (hhex c)
        (.cons (hhex d) fun c hc => nomatch hc)))))

theorem allowed_quoted {atoms : List Atom} (h : ∀ a ∈ atoms, a.Shared) :
    Allowed (quoted atoms) := by
  refine .cons rfl (.append (fun c hc => ?_) (allowed_of_all rfl))
  obtain ⟨a, ha, hc⟩ := List.mem_flatMap.1 hc
  exact allowed_atom (h a ha) c hc

theorem allowed_key {k : Key} (h : Key.Shared k) : Allowed (keyChars k) :=
  .append (allowed_gap _) (.append (allowed_quoted h.atoms)
    (.append (allowed_gap _) (allowed_of_all rfl)))

theorem allowed_numeral (n : Json.Numeral) : Allowed n.chars := by
  intro c hc
  obtain ⟨-, -, -, -, -, hallowed⟩ := of_isWordChar ((Lexer.word_numeral n).2 c hc)
  exact hallowed

mutual

/-- The text of a shared form is allowed in a stream. -/
theorem allowed_text (f : Form) (hf : f.Shared) : Allowed f.text := by
  match f with
  | .null => exact allowed_of_all rfl
  | .bool true => exact allowed_of_all rfl
  | .bool false => exact allowed_of_all rfl
  | .number n => exact allowed_numeral n
  | .string atoms => exact allowed_quoted hf
  | .noItems gap => exact .cons rfl ((allowed_gap gap).append (allowed_of_all rfl))
  | .items ⟨before, f, after⟩ rest =>
      exact .cons rfl ((allowed_gap before).append ((allowed_text f hf.1).append
        ((allowed_gap after).append ((allowed_itemsText rest hf.2).append (allowed_of_all rfl)))))
  | .noMembers gap => exact .cons rfl ((allowed_gap gap).append (allowed_of_all rfl))
  | .members (k, ⟨before, f, after⟩) rest =>
      exact .cons rfl ((allowed_key hf.1).append ((allowed_gap before).append
        ((allowed_text f hf.2.1).append ((allowed_gap after).append
          ((allowed_membersText rest hf.2.2).append (allowed_of_all rfl))))))

/-- Further items are allowed in a stream. -/
theorem allowed_itemsText (rest : List (Json.Slot Form)) (h : Form.ItemsShared rest) :
    Allowed (Form.itemsText rest) := by
  match rest with
  | [] => exact fun c hc => nomatch hc
  | ⟨before, f, after⟩ :: rest =>
      exact .cons rfl ((allowed_gap before).append ((allowed_text f h.1).append
        ((allowed_gap after).append (allowed_itemsText rest h.2))))

/-- Further members are allowed in a stream. -/
theorem allowed_membersText (rest : List (Key × Json.Slot Form)) (h : Form.MembersShared rest) :
    Allowed (Form.membersText rest) := by
  match rest with
  | [] => exact fun c hc => nomatch hc
  | (k, ⟨before, f, after⟩) :: rest =>
      exact .cons rfl ((allowed_key h.1).append ((allowed_gap before).append
        ((allowed_text f h.2.1).append ((allowed_gap after).append
          (allowed_membersText rest h.2.2)))))

end

-- ================================================================ streams

/-- A list or object that both syntaxes read alike is a document, without anything to
which an alias could refer. -/
theorem read?_text {f : Form} (hf : f.Shared) (hcontainer : f.IsContainer)
    {before after : Json.Gap} (hbefore : .tab ∉ before) (hafter : .tab ∉ after) :
    read? (encode (before.chars ++ (f.text ++ after.chars))) = some ⟨some f.node, []⟩ := by
  have hallowed : Allowed (before.chars ++ (f.text ++ after.chars)) :=
    (allowed_gap before).append ((allowed_text f hf).append (allowed_gap after))
  have hchars : characters? (encode (before.chars ++ (f.text ++ after.chars)))
      = some (before.chars ++ (f.text ++ after.chars)) := by
    rw [characters?, Text.Utf8.decode?_eq_some_iff.2 rfl]
    exact if_pos (List.all_eq_true.2 hallowed)
  rw [read?, hchars]
  show (tokens? (place (before.chars ++ (f.text ++ after.chars)))).bind Node.ofTokens? = _
  rw [tokens?_text hf hcontainer hbefore hafter]
  exact Node.ofTokens?_tokens f

end ApiForge.Yaml
