import ApiForge.Proofs.Artifact.Reached
import ApiForge.Proofs.Document.Grown
import ApiForge.Proofs.Shape.Merge
import ApiForge.Proofs.Shape.Named
/-!
What a document answers, it still answers with one component schema more.

# References

Under a new name the schema stands where no pointer has led to. So whatever a
pointer leads to in the smaller document, it leads to in the larger one
(`Leads.withSchema`). The converse is false: a pointer may have named the new
schema before there was one.

# Shapes

A merge passes over a pointer that leads nowhere, and would not do so any more
if the new schema stood there. But in a checked document every pointer that a
merge follows leads to a schema (`Checked.resolvable`), so what is merged stays
(`merge_withSchema`), and with it every shape that was there
(`shape?_withSchema`).
-/

namespace ApiForge

namespace Document

variable {d : Document} {raw p : String} {new s : Schema} {shape : Shape}

/-- No component schema has the name. -/
def Unused (d : Document) (raw : String) : Prop :=
  ∀ e ∈ d.schemas, e.1 ≠ raw

-- ============================================================ references

/-- What a pointer names stays. -/
theorem lookUp_withSchema (hnew : d.Unused raw) {a : Address} {slot : Slot}
    (h : d.lookUp p = .ok (a, slot)) :
    (d.withSchema raw new).lookUp p = .ok (a, slot) := by
  obtain ⟨hparse, hslot⟩ := lookUp_eq_ok h
  have hmore : (d.withSchema raw new).shared.slot? a = some slot := by
    unfold Components.slot? at hslot ⊢
    cases hkind : a.kind with
    | schema =>
        rw [hkind] at hslot
        obtain ⟨x, hx, hslot⟩ := Option.map_eq_some_iff.1 hslot
        have hne : raw ≠ a.name := (hnew _ (Table.mem_of_get? hx)).symm
        show ((d.shared.schemas.insert raw new).get? a.name).map _ = _
        rw [Table.get?_insert_of_ne hne, hx, ← hslot]
        rfl
    | response | parameter | requestBody =>
        rw [hkind] at hslot
        exact hslot
  simp only [lookUp, hparse, bind, Except.bind, hmore]
  rfl

/-- What a pointer leads to stays. -/
theorem Leads.withSchema (hnew : d.Unused raw) {f : Found}
    (h : Leads d p f) : Leads (d.withSchema raw new) p f := by
  obtain ⟨chain, hchain⟩ := h
  refine ⟨chain, ?_⟩
  induction hchain with
  | here hl => exact .here (lookUp_withSchema hnew hl)
  | next hl _ hkind ih => exact .next (lookUp_withSchema hnew hl) ih hkind

/-- A schema that was found is found with the new component. -/
theorem resolveSchema_withSchema (hnew : d.Unused raw)
    (h : d.resolveSchema p = .ok s) :
    (d.withSchema raw new).resolveSchema p = .ok s :=
  resolveSchema_eq_ok_iff.2
    ((resolveSchema_eq_ok_iff.1 h).imp fun _ => Leads.withSchema hnew)

/-- A parameter that was found is found with the new component. -/
theorem resolveParameter_withSchema (hnew : d.Unused raw) {x : Parameter}
    (h : d.resolveParameter p = .ok x) :
    (d.withSchema raw new).resolveParameter p = .ok x :=
  resolveParameter_eq_ok_iff.2
    ((resolveParameter_eq_ok_iff.1 h).imp fun _ => Leads.withSchema hnew)

/-- A body that was found is found with the new component. -/
theorem resolveRequestBody_withSchema (hnew : d.Unused raw) {b : RequestBody}
    (h : d.resolveRequestBody p = .ok b) :
    (d.withSchema raw new).resolveRequestBody p = .ok b :=
  resolveRequestBody_eq_ok_iff.2
    ((resolveRequestBody_eq_ok_iff.1 h).imp fun _ => Leads.withSchema hnew)

/-- A response that was found is found with the new component. -/
theorem resolveResponse_withSchema (hnew : d.Unused raw) {r : Response}
    (h : d.resolveResponse p = .ok r) :
    (d.withSchema raw new).resolveResponse p = .ok r :=
  resolveResponse_eq_ok_iff.2
    ((resolveResponse_eq_ok_iff.1 h).imp fun _ => Leads.withSchema hnew)

-- =============================================================== merging

/-- Every pointer that the steps follow leads to a schema. -/
def Resolvable (d : Document) (steps : List MergeStep) : Prop :=
  ∀ p, .follow p ∈ steps → ∃ target, d.resolveSchema p = .ok target

/-- The pointers that merging a schema follows lead to schemas. -/
theorem Checked.resolvable (hd : d.Checked) (hs : d.Sees s)
    (hp : s.pointer = none) : d.Resolvable s.mergeSteps := by
  intro q hq
  obtain ⟨m, hm, hmq⟩ := (hereditary_sees d).followed hs hp hq
  exact hd.resolvesSchema hm hmq

/-- What is declared under a budget stays. The budget bounds how often a
pointer is followed, and each leads where it has led before, to a component
schema that is merged in its turn. -/
theorem declarations_withSchema (hnew : d.Unused raw) (hd : d.Checked)
    (budget : Nat) (stack : List String) {steps : List MergeStep}
    (hsteps : d.Resolvable steps) :
    (d.withSchema raw new).declarations budget stack steps
      = d.declarations budget stack steps := by
  induction budget generalizing stack steps with
  | zero => rfl
  | succ budget ih =>
      refine List.flatMap_congr fun step hstep => ?_
      cases step with
      | declare properties required => rfl
      | follow q =>
          obtain ⟨target, htarget⟩ := hsteps q hstep
          dsimp only
          rw [htarget, resolveSchema_withSchema hnew htarget]
          cases hp : target.pointer with
          | some _ => simp only [hp]
          | none =>
              obtain ⟨a, ha⟩ := resolveSchema_eq_ok_iff.1 htarget
              have hseen : d.Sees target :=
                (hereditary_sees d).component (a.name, target) ha.holds
              simp only [hp, ih (q :: stack) (hd.resolvable hseen hp)]

/-- What merging a schema declares stays. The two documents allow for different
numbers of pointers, and a budget that is enough for both does for each. -/
theorem merge_withSchema (hnew : d.Unused raw) (hd : d.Checked)
    (hs : d.Sees s) (hp : s.pointer = none) :
    (d.withSchema raw new).merge s = d.merge s := by
  rw [merge_eq _ s (Nat.le_max_left _ (d.mergePointers s).length),
    merge_eq d s (Nat.le_max_right _ _)]
  exact declarations_withSchema hnew hd _ [] (hd.resolvable hs hp)

-- ================================================================ shapes

/-- One level of a shape is made as before. -/
theorem shapeStep?_withSchema (hnew : d.Unused raw) (hd : d.Checked)
    (hs : d.Sees s) (shapeOf : Schema → Option Shape) :
    (d.withSchema raw new).shapeStep? shapeOf s = d.shapeStep? shapeOf s := by
  unfold shapeStep?
  cases hp : s.pointer with
  | some _ => rfl
  | none =>
      simp only [mergedShape?, merge_withSchema hnew hd hs hp]

/-- A shape that is found at some depth is still found there. -/
theorem shapeWithin?_withSchema (hnew : d.Unused raw) (hd : d.Checked)
    {depth : Nat} (hs : d.Sees s) (h : d.shapeWithin? depth s = some shape) :
    (d.withSchema raw new).shapeWithin? depth s = some shape := by
  induction depth generalizing s shape with
  | zero => cases h
  | succ depth ih =>
      rw [shapeWithin?_succ] at h ⊢
      rw [shapeStep?_withSchema hnew hd hs]
      cases hp : s.pointer with
      | some _ =>
          unfold shapeStep? at h ⊢
          rw [hp] at h ⊢
          exact h
      | none =>
          refine (made_step d hp).mono (fun q hq x hx => ?_) h
          exact ih ((hereditary_sees d).parts hs q hq) hx

/-- The nodes of the document are nodes of the larger one. -/
theorem nodes_subset_withSchema (hnew : d.Unused raw) :
    d.nodes ⊆ (d.withSchema raw new).nodes := by
  have hroots : d.roots ⊆ (d.withSchema raw new).roots := by
    intro r hr
    rw [roots_eq] at hr ⊢
    rcases List.mem_append.1 hr with hr | hr
    · refine List.mem_append_left _ ?_
      simp only [Components.roots, List.append_assoc] at hr ⊢
      rcases List.mem_append.1 hr with hr | hr
      · obtain ⟨e, he, rfl⟩ := List.mem_map.1 hr
        exact List.mem_append_left _
          (List.mem_map_of_mem (Table.subset_insert hnew new he))
      · exact List.mem_append_right _ hr
    · exact List.mem_append_right _ hr
  intro x hx
  obtain ⟨r, hr, hx⟩ := List.mem_flatMap.1 hx
  exact List.mem_flatMap.2 ⟨r, hroots hr, hx⟩

/-- The shape of a schema stays. The larger document starts from more depth,
and more depth leaves a shape as it is. -/
theorem shape?_withSchema (hnew : d.Unused raw) (hd : d.Checked)
    (hs : d.Mapped s) (h : d.shape? s = some shape) :
    (d.withSchema raw new).shape? s = some shape := by
  have hnode : s ∈ (d.withSchema raw new).nodes :=
    nodes_subset_withSchema hnew hs.mem_nodes
  exact (shape?_eq_some_iff hnode).2
    ⟨_, shapeWithin?_withSchema hnew hd hs.covered.seen h⟩

end Document

end ApiForge
