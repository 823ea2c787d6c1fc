import ApiForge.Proofs.Shape.Parts
import Mathlib.Data.List.Perm.Subperm
import Mathlib.Data.Nat.Find
/-!
How deep shapes nest.

# Depth

More depth never changes a shape (`shapeWithin?_mono`), so a schema whose shape
is found at all has a least depth for it. A part that a depth is due to has the
depth that is one less (`Least.part`), and with the parts of parts this gives
as many different schemas as the depth says (`Least.descent`). All of them are
nodes of the document, which are `schemaCount` many; so the depth that `shape?`
starts from is enough for every schema that has a shape at all
(`shape?_eq_some_iff`), and answering nothing means that mapping would not end.
-/

namespace ApiForge

namespace Document

variable {d : Document} {s : Schema} {shape : Shape}

-- ============================================================= monotony

/-- A shape that is found at a depth is found at the next. -/
theorem shapeWithin?_step {depth : Nat}
    (h : d.shapeWithin? depth s = some shape) :
    d.shapeWithin? (depth + 1) s = some shape := by
  induction depth generalizing s shape with
  | zero => cases h
  | succ depth ih =>
      rw [shapeWithin?_succ] at h ⊢
      cases hp : s.pointer with
      | some p =>
          unfold shapeStep? at h ⊢
          rw [hp] at h ⊢
          exact h
      | none => exact (made_step d hp).mono (fun _ _ _ hq => ih hq) h

/-- More depth leaves a shape as it is. -/
theorem shapeWithin?_mono {m n : Nat} (hmn : m ≤ n)
    (h : d.shapeWithin? m s = some shape) :
    d.shapeWithin? n s = some shape := by
  induction hmn with
  | refl => exact h
  | step _ ih => exact shapeWithin?_step ih

/-- No shape is found below a depth at which none is found. -/
theorem shapeWithin?_eq_none {m n : Nat} (hmn : m ≤ n)
    (h : d.shapeWithin? n s = none) : d.shapeWithin? m s = none := by
  cases hm : d.shapeWithin? m s with
  | none => rfl
  | some shape => rw [shapeWithin?_mono hmn hm] at h; cases h

-- ======================================================== least depths

/-- The least depth at which a schema has a shape. -/
structure Least (d : Document) (depth : Nat) (s : Schema) : Prop where
  found : (d.shapeWithin? depth s).isSome
  below : ∀ m < depth, d.shapeWithin? m s = none

/-- A schema that has a shape has it from some depth on. -/
theorem exists_least {depth : Nat} (h : (d.shapeWithin? depth s).isSome) :
    ∃ least ≤ depth, Least d least s := by
  classical
  have hex : ∃ n, (d.shapeWithin? n s).isSome := ⟨depth, h⟩
  refine ⟨Nat.find hex, Nat.find_min' hex h, Nat.find_spec hex, ?_⟩
  intro m hm
  exact Option.not_isSome_iff_eq_none.1 (Nat.find_min hex hm)

/-- A schema has one least depth. -/
theorem Least.unique {m n : Nat} (hm : Least d m s) (hn : Least d n s) :
    m = n := by
  rcases Nat.lt_trichotomy m n with h | h | h
  · have := hm.found
    rw [hn.below m h] at this
    cases this
  · exact h
  · have := hn.found
    rw [hm.below n h] at this
    cases this

/-- Above the least of all, a depth is due to a part: one that asks for all the
depth that is left. -/
theorem Least.part {n : Nat} (h : Least d (n + 2) s) :
    ∃ q ∈ d.parts s, Least d (n + 1) q := by
  have hfound := h.found
  have hnone := h.below (n + 1) (Nat.lt_succ_self _)
  rw [shapeWithin?_succ] at hfound hnone
  cases hp : s.pointer with
  | some p =>
      unfold shapeStep? at hnone
      rw [hp] at hnone
      cases hnone
  | none =>
      have hmade := made_step d hp
      have hparts := hmade.isSome_iff.1 hfound
      have hmissing : ¬ ∀ q ∈ d.parts s, (d.shapeWithin? n q).isSome := by
        intro hall
        have := hmade.isSome_iff.2 hall
        rw [hnone] at this
        cases this
      push Not at hmissing
      obtain ⟨q, hq, hqn⟩ := hmissing
      refine ⟨q, hq, hparts q hq, fun m hm => ?_⟩
      exact shapeWithin?_eq_none (Nat.le_of_lt_succ hm)
        (Option.not_isSome_iff_eq_none.1 hqn)

/-- Below a schema of some least depth there are as many schemas, one for each
smaller least depth. -/
theorem Least.descent {Q : Schema → Prop} (hQ : Hereditary d Q) {n : Nat}
    (h : Least d (n + 1) s) (hs : Q s) :
    ∃ l : List Schema, l.length = n + 1 ∧ l.Nodup
      ∧ ∀ q ∈ l, Q q ∧ ∃ m ≤ n + 1, Least d m q := by
  induction n generalizing s with
  | zero =>
      refine ⟨[s], rfl, List.nodup_singleton s, fun q hq => ?_⟩
      cases List.mem_singleton.1 hq
      exact ⟨hs, 1, Nat.le_refl 1, h⟩
  | succ n ih =>
      obtain ⟨q, hq, hleast⟩ := h.part
      obtain ⟨l, hlength, hnodup, hall⟩ := ih hleast (hQ.parts hs q hq)
      refine ⟨s :: l, by rw [List.length_cons, hlength], ?_, ?_⟩
      · refine List.nodup_cons.2 ⟨fun hmem => ?_, hnodup⟩
        obtain ⟨-, m, hm, hsm⟩ := hall s hmem
        have := h.unique hsm
        omega
      · intro x hx
        rcases List.mem_cons.1 hx with rfl | hx
        · exact ⟨hs, n + 2, Nat.le_refl _, h⟩
        · obtain ⟨hx, m, hm, hxm⟩ := hall x hx
          exact ⟨hx, m, Nat.le_succ_of_le hm, hxm⟩

-- ========================================================= enough depth

/-- Being a node of the document passes to the parts. -/
theorem hereditary_nodes (d : Document) : Hereditary d (· ∈ d.nodes) where
  component := by
    intro e he
    refine List.mem_flatMap.2 ⟨e.2, ?_, Schema.mem_nodes_self e.2⟩
    rw [schemas, shared] at he
    cases hc : d.components with
    | none => rw [hc] at he; exact absurd he List.not_mem_nil
    | some c =>
        rw [hc] at he
        have hroot : e.2 ∈ c.roots := by
          simp only [Components.roots, List.mem_append, or_assoc]
          exact .inl (List.mem_map_of_mem he)
        simp [roots, hc, hroot]
  inside := by
    intro s hs _ c hc
    obtain ⟨root, hroot, hs⟩ := List.mem_flatMap.1 hs
    exact List.mem_flatMap.2 ⟨root, hroot, Schema.children_mem_nodes hs hc⟩

/-- The least depth of a node is no more than the number of nodes. -/
theorem Least.le_schemaCount {n : Nat} (h : Least d n s) (hs : s ∈ d.nodes) :
    n ≤ d.schemaCount := by
  cases n with
  | zero => exact Nat.zero_le _
  | succ n =>
      obtain ⟨l, hlength, hnodup, hall⟩ := h.descent (hereditary_nodes d) hs
      rw [schemaCount_eq, ← hlength]
      exact (List.subperm_of_subset hnodup fun q hq => (hall q hq).1).length_le

/-- The depth that `shape?` starts from is enough for every schema of the
document that has a shape at some depth. -/
theorem shape?_eq_some_iff (hs : s ∈ d.nodes) :
    d.shape? s = some shape ↔ ∃ depth, d.shapeWithin? depth s = some shape := by
  refine ⟨fun h => ⟨_, h⟩, fun ⟨depth, h⟩ => ?_⟩
  obtain ⟨least, _, hleast⟩ :=
    exists_least (Option.isSome_iff_exists.2 ⟨shape, h⟩)
  obtain ⟨found, hfound⟩ := Option.isSome_iff_exists.1 hleast.found
  have hle : least ≤ d.schemaCount + 1 :=
    Nat.le_succ_of_le (hleast.le_schemaCount hs)
  have hsame : found = shape := by
    have hmax := shapeWithin?_mono (Nat.le_max_left least depth) hfound
    rw [shapeWithin?_mono (Nat.le_max_right least depth) h] at hmax
    exact (Option.some.inj hmax).symm
  rw [shape?, shapeWithin?_mono hle hfound, hsame]

-- =============================================================== names

/-- Every name that a shape mentions is that of a pointer, at a schema that has
a property which passes to parts. -/
theorem names_shapeWithin? {Q : Schema → Prop} (hQ : Hereditary d Q)
    {depth : Nat} (hs : Q s) (h : d.shapeWithin? depth s = some shape) :
    ∀ n ∈ shape.names,
      ∃ q p, Q q ∧ q.pointer = some p ∧ n = Schema.nameOfPointer p := by
  induction depth generalizing s shape with
  | zero => cases h
  | succ depth ih =>
      intro n hn
      rw [shapeWithin?_succ] at h
      cases hp : s.pointer with
      | some p =>
          unfold shapeStep? at h
          rw [hp] at h
          cases h
          exact ⟨s, p, hs, hp, List.mem_singleton.1 hn⟩
      | none =>
          obtain ⟨q, hq, x, hx, hn⟩ := (made_step d hp).names h n hn
          exact ih (hQ.parts hs q hq) hx n hn

end Document

end ApiForge
