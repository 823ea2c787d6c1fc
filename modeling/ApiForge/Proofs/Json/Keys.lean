import ApiForge.Json.Text
/-!
The keys of objects in JSON text.

Whatever octets are read, what stands for a key is a text or cannot be read. Each
step of the reader preserves that (`State.Keyed.step`), since a key is put into an
object only where a string ends.
-/

namespace ApiForge.Json.Text

-- ================================================ statement vocabulary

/-- What stands for a key of an object: a text, or nothing that can be read. -/
def IsKey (t : Tree) : Prop := (∃ s, t = .str s) ∨ t = .unreadable

/-- If it is a map, then what stands for its keys are keys. -/
def Keyed (t : Tree) : Prop := ∀ bindings, t = .map bindings → ∀ b ∈ bindings, IsKey b.1

/-- So far there are only keys for keys. -/
def Frame.Keyed : Frame → Prop
  | .list _ => True
  | .object bindings => ∀ b ∈ bindings, IsKey b.1
  | .member bindings k => IsKey k ∧ ∀ b ∈ bindings, IsKey b.1

/-- There are only keys for keys in what a state holds. -/
structure State.Keyed (s : State) : Prop where
  stack : ∀ f ∈ s.stack, f.Keyed
  result : ∀ t, s.result = some t → Json.Text.Keyed t
  word : ∀ left t, s.mode = .word left t → Json.Text.Keyed t

-- =============================================================== steps

/-- The text of a key is a key, whether it can be read or not. -/
theorem isKey_toTree (p : Piece) : IsKey p.toTree := by
  unfold Piece.toTree
  split
  · exact .inr rfl
  · split
    · exact .inl ⟨_, rfl⟩
    · exact .inr rfl

theorem keyed_of_ne {t : Tree} (h : ∀ bindings, t ≠ .map bindings) : Keyed t :=
  fun bindings ht => absurd ht (h bindings)

/-- Closing a value keeps the state keyed. -/
theorem State.Keyed.close {s : State} (h : s.Keyed) {t : Tree} (ht : Json.Text.Keyed t) :
    (s.close t).Keyed := by
  obtain ⟨stack, mode, result⟩ := s
  obtain ⟨hstack, hresult, -⟩ := h
  cases stack with
  | nil =>
      refine ⟨hstack, fun t' ht' => ?_, fun left t' h => by cases h⟩
      obtain rfl := Option.some.inj ht'
      exact ht
  | cons f stack =>
      obtain ⟨hf, hrest⟩ := List.forall_mem_cons.1 hstack
      cases f with
      | list items =>
          exact ⟨List.forall_mem_cons.2 ⟨trivial, hrest⟩, hresult, fun left t' h => by cases h⟩
      | object bindings =>
          exact ⟨List.forall_mem_cons.2 ⟨hf, hrest⟩, hresult, fun left t' h => by cases h⟩
      | member bindings k =>
          have hbindings : ∀ b ∈ (k, t) :: bindings, IsKey b.1 :=
            List.forall_mem_cons.2 ⟨hf.1, hf.2⟩
          exact ⟨List.forall_mem_cons.2 ⟨hbindings, hrest⟩, hresult,
            fun left t' h => by cases h⟩

/-- A state that has moved on within the same containers. -/
theorem State.Keyed.turn {s : State} (h : s.Keyed) {m : Mode}
    (hm : ∀ left t, m = .word left t → Json.Text.Keyed t) : State.Keyed { s with mode := m } :=
  ⟨h.stack, h.result, hm⟩

theorem State.Keyed.push {s : State} (h : s.Keyed) {f : Frame} (hf : f.Keyed) {m : Mode}
    (hm : ∀ left t, m = .word left t → Json.Text.Keyed t) :
    State.Keyed { s with stack := f :: s.stack, mode := m } :=
  ⟨List.forall_mem_cons.2 ⟨hf, h.stack⟩, h.result, hm⟩

/-- Closing a container keeps the state keyed. -/
theorem State.Keyed.pop {s : State} (h : s.Keyed) {t : Tree} (ht : Json.Text.Keyed t) :
    (s.pop t).Keyed := by
  have htail : State.Keyed { s with stack := s.stack.tail } :=
    ⟨fun f hf => h.stack f (List.mem_of_mem_tail hf), h.result, h.word⟩
  refine htail.close ?_
  split
  · exact keyed_of_ne fun _ h => by cases h
  · exact ht

/-- Closing a string keeps the state keyed, as a key or as a value. -/
theorem State.Keyed.closeString {s : State} (h : s.Keyed) (isKey : Bool) (p : Piece) :
    (s.closeString isKey p).Keyed := by
  have hvalue : (s.close p.toTree).Keyed := by
    refine h.close (keyed_of_ne fun bindings ht => ?_)
    rcases isKey_toTree p with ⟨_, hp⟩ | hp <;> rw [hp] at ht <;> cases ht
  unfold State.closeString
  split
  · split
    · rename_i bindings rest hstack
      have hall := h.stack
      rw [hstack] at hall
      obtain ⟨hf, hrest⟩ := List.forall_mem_cons.1 hall
      exact ⟨List.forall_mem_cons.2 ⟨⟨isKey_toTree p, hf⟩, hrest⟩, h.result,
        fun left t h => by cases h⟩
    · exact hvalue
  · exact hvalue

/-- No number is a map. -/
theorem value?_ne_map {l : Number.Lexeme} {bindings : List (Tree × Tree)} :
    Number.value? l ≠ some (.map bindings) := by
  intro h
  unfold Number.value? at h
  split at h
  rename_i word dropped hword
  have hscale {word : Nat} {exponent : Int} :
      (Number.scale? word exponent).map (fun pattern =>
        Tree.float (Numeric.Binary64.ofPattern l.negative pattern))
        ≠ some (.map bindings) := by
    intro h
    obtain ⟨_, -, h⟩ := Option.map_eq_some_iff.1 h
    cases h
  dsimp only at h
  split at h
  · split at h
    · split at h
      · cases h
      · split at h <;> cases h
    · exact hscale h
  · split at h
    · exact hscale h
    · split at h
      · exact hscale h
      · split at h <;> cases h

/-- The end of a number keeps the state keyed. -/
theorem State.Keyed.endNumber {s s' : State} (h : s.Keyed) {octets : List UInt8}
    (hs : Text.endNumber s octets = some s') : s'.Keyed := by
  obtain ⟨t, ht, rfl⟩ := Option.map_eq_some_iff.1 hs
  refine h.close (keyed_of_ne fun bindings hmap => ?_)
  subst hmap
  obtain ⟨l, -, hl⟩ := Option.map_eq_some_iff.1 ht
  cases hvalue : Number.value? l with
  | none => rw [hvalue] at hl; cases hl
  | some t =>
      rw [hvalue, Option.getD_some] at hl
      exact value?_ne_map (hl ▸ hvalue)

/-- The beginning of a value keeps the state keyed. -/
theorem State.Keyed.beginValue {s s' : State} (h : s.Keyed) {b : UInt8}
    (hs : Text.beginValue s b = some s') : s'.Keyed := by
  unfold Text.beginValue at hs
  split at hs
  · obtain rfl := Option.some.inj hs
    exact h.push (f := .list []) trivial fun left t h => by cases h
  · obtain rfl := Option.some.inj hs
    exact h.push (f := .object []) (fun b hb => absurd hb List.not_mem_nil)
      fun left t h => by cases h
  · obtain rfl := Option.some.inj hs
    exact h.turn fun left t h => by cases h
  · obtain rfl := Option.some.inj hs
    exact h.turn fun left t h => by cases h; exact keyed_of_ne fun _ h => by cases h
  · obtain rfl := Option.some.inj hs
    exact h.turn fun left t h => by cases h; exact keyed_of_ne fun _ h => by cases h
  · obtain rfl := Option.some.inj hs
    exact h.turn fun left t h => by cases h; exact keyed_of_ne fun _ h => by cases h
  · split at hs
    · obtain rfl := Option.some.inj hs
      exact h.turn fun left t h => by cases h
    · cases hs

/-- What follows a value keeps the state keyed. -/
theorem State.Keyed.afterValue {s s' : State} (h : s.Keyed) {b : UInt8}
    (hs : Text.afterValue s b = some s') : s'.Keyed := by
  have hall := h.stack
  unfold Text.afterValue at hs
  split at hs
  · obtain rfl := Option.some.inj hs
    exact h.turn fun left t h => by cases h
  · obtain rfl := Option.some.inj hs
    exact h.pop (keyed_of_ne fun _ h => by cases h)
  · obtain rfl := Option.some.inj hs
    exact h.turn fun left t h => by cases h
  · rename_i bindings rest hstack _
    obtain rfl := Option.some.inj hs
    rw [hstack] at hall
    refine h.pop fun bindings' ht b hb => ?_
    obtain rfl := Tree.map.inj ht
    exact hall _ List.mem_cons_self b (List.mem_reverse.1 hb)
  · cases hs

/-- Every octet keeps the state keyed. -/
theorem State.Keyed.step {s s' : State} (h : s.Keyed) {b : UInt8}
    (hs : Text.step s b = some s') : s'.Keyed := by
  have hturn {m : Mode} (hm : ∀ left t, m ≠ .word left t) :
      State.Keyed { s with mode := m } :=
    h.turn fun left t hw => absurd hw (hm left t)
  unfold Text.step at hs
  -- mode by mode; only words, strings and ends of containers close a value
  split at hs
  · split at hs
    · obtain rfl := Option.some.inj hs
      exact h.closeString _ _
    split at hs
    · obtain rfl := Option.some.inj hs
      exact hturn fun left t h => by cases h
    split at hs
    · cases hs
    · obtain rfl := Option.some.inj hs
      exact hturn fun left t h => by cases h
  · split at hs
    · obtain rfl := Option.some.inj hs
      exact hturn fun left t h => by cases h
    · obtain ⟨o, -, rfl⟩ := Option.map_eq_some_iff.1 hs
      exact hturn fun left t h => by cases h
  · obtain ⟨d, -, rfl⟩ := Option.map_eq_some_iff.1 hs
    dsimp only
    split
    · exact hturn fun left t h => by cases h
    · exact hturn fun left t h => by cases h
  · split at hs
    · obtain rfl := Option.some.inj hs
      exact hturn fun left t h => by cases h
    · obtain ⟨s'', hend, hs⟩ := Option.bind_eq_some_iff.1 hs
      have h := h.endNumber hend
      split at hs
      · obtain rfl := Option.some.inj hs
        exact h
      · exact h.afterValue hs
  · rename_i left t hmode
    split at hs
    · cases hs
    · split at hs
      · obtain rfl := Option.some.inj hs
        exact h.close (h.word _ _ hmode)
      · cases hs
    · split at hs
      · obtain rfl := Option.some.inj hs
        exact h.turn fun left t hw => by cases hw; exact h.word _ _ hmode
      · cases hs
  · split at hs
    · obtain rfl := Option.some.inj hs
      exact h
    · exact h.beginValue hs
  · split at hs
    · obtain rfl := Option.some.inj hs
      exact h
    split at hs
    · obtain rfl := Option.some.inj hs
      exact h.pop (keyed_of_ne fun _ h => by cases h)
    · exact h.beginValue hs
  · split at hs
    · obtain rfl := Option.some.inj hs
      exact h
    split at hs
    · obtain rfl := Option.some.inj hs
      refine h.pop fun bindings ht b hb => ?_
      obtain rfl := Tree.map.inj ht
      exact absurd hb List.not_mem_nil
    split at hs
    · obtain rfl := Option.some.inj hs
      exact hturn fun left t h => by cases h
    · cases hs
  · split at hs
    · obtain rfl := Option.some.inj hs
      exact h
    split at hs
    · obtain rfl := Option.some.inj hs
      exact hturn fun left t h => by cases h
    · cases hs
  · split at hs
    · obtain rfl := Option.some.inj hs
      exact h
    split at hs
    · obtain rfl := Option.some.inj hs
      exact hturn fun left t h => by cases h
    · cases hs
  · split at hs
    · obtain rfl := Option.some.inj hs
      exact h
    · exact h.afterValue hs

-- ================================================================ runs

/-- If a text gives a map, then its keys are texts, or cannot be read. -/
theorem keys_of_read? {octets : List UInt8} {bindings : List (Tree × Tree)}
    (h : read? octets = some (.map bindings)) : ∀ b ∈ bindings, IsKey b.1 := by
  -- every octet keeps the invariant, and so does the whole text
  have hall (octets : List UInt8) (s s' : State) (hs : s.Keyed)
      (hrun : octets.foldlM Text.step s = some s') : s'.Keyed := by
    induction octets generalizing s with
    | nil =>
        obtain rfl := Option.some.inj hrun
        exact hs
    | cons b octets ih =>
        rw [List.foldlM_cons] at hrun
        obtain ⟨s'', hstep, hrun⟩ := Option.bind_eq_some_iff.1 hrun
        exact ih s'' (hs.step hstep) hrun
  obtain ⟨s, hrun, hfinish⟩ := Option.bind_eq_some_iff.1 h
  have hstart : State.Keyed {} := by
    refine ⟨fun f hf => absurd hf List.not_mem_nil, fun t ht => ?_, fun left t h => ?_⟩
    · cases ht
    · cases h
  have hs : s.Keyed := hall octets _ s hstart hrun
  unfold finish at hfinish
  split at hfinish
  · obtain ⟨s', hend, hresult⟩ := Option.bind_eq_some_iff.1 hfinish
    exact (hs.endNumber hend).result _ hresult bindings rfl
  · exact hs.result _ hfinish bindings rfl
  · cases hfinish

end ApiForge.Json.Text
