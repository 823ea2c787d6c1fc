import ApiForge.Proofs.Reference.Paired
import ApiForge.Proofs.Shape.Depth
import ApiForge.Proofs.Shape.Merge
/-!
Shapes in paired documents.

`Schema.SameRead` lists what a shape takes from a schema itself: the first type
name other than null, the format, the literals, which properties are required,
and the description. Schemas that agree in this wherever they are written out
(`Schema.ReadAlike`) have the same shape at every depth, each in its own
document, if the documents are paired by it (`Paired.shapeWithin?`). One level
of a shape asks for the shapes of related schemas only, in the order of the one
document as in that of the other; for merged properties this needs that both
merges follow the same pointers, and that their budgets do not matter. Depth is
bounded by the number of schemas, which may be different in the two documents;
but the bound does not matter either for schemas of the document
(`Paired.shape?`).
-/

namespace ApiForge

open Hereditary (memberSteps)

variable {α β : Type}

namespace Schema

/-- What is read of two schemas themselves is the same. -/
structure SameRead (s s' : Schema) : Prop where
  primary : primaryType s.types = primaryType s'.types
  format : s.format = s'.format
  description : s.description = s'.description
  required : s.required = s'.required
  literals : s.literals = s'.literals

/-- What is read of two schemas is the same, inside of them too. -/
abbrev ReadAlike : Schema → Schema → Prop :=
  AlikeInline SameRead

variable {R : Schema → Schema → Prop} {s s' : Schema}

theorem AlikeInline.pointer_eq (h : AlikeInline R s s') :
    s.pointer = s'.pointer := by
  cases h with
  | pointer hs hs' => rw [hs, hs']
  | inline hs hs' => rw [hs, hs']

/-- Schemas that are no pointers correspond in what they hold. -/
theorem AlikeInline.unfold (h : AlikeInline R s s') (hs : s.pointer = none) :
    R s s' ∧ Members (AlikeInline R) s s' := by
  cases h with
  | pointer hp _ => rw [hp] at hs; cases hs
  | inline _ _ node properties items additional allOf oneOf anyOf negated =>
      exact ⟨node, properties, items, additional, allOf, oneOf, anyOf, negated⟩

/-- Schemas that are read alike have the same description of their own. -/
theorem ReadAlike.ownDescription (h : ReadAlike s s') :
    s.ownDescription = s'.ownDescription := by
  rw [Schema.ownDescription, Schema.ownDescription, inline?, inline?,
    ← h.pointer_eq]
  cases hs : s.pointer with
  | some p => rfl
  | none => exact (h.unfold hs).1.description

end Schema

open Schema (AlikeInline ReadAlike SameRead)

-- ================================================================ merging

variable {S R : Schema → Schema → Prop}

/-- Steps that follow the same pointer, or declare related properties. -/
inductive MergeStep.Paired (S : Schema → Schema → Prop) :
    MergeStep → MergeStep → Prop
  | follow (p : String) : Paired S (.follow p) (.follow p)
  | declare {properties properties' : Table Schema} (required : List String) :
      Table.Alike S properties properties' →
      Paired S (.declare properties required) (.declare properties' required)

/-- Related properties, the same of them required. -/
structure Declaration.Paired (S : Schema → Schema → Prop)
    (x x' : Declaration) : Prop where
  properties : Table.Alike S x.properties x'.properties
  required : x.required = x'.required

/-- Members that correspond are merged by corresponding steps. -/
theorem memberSteps_paired
    (hR : ∀ s s' : Schema, R s s' → s.required = s'.required) {s s' : Schema}
    (h : AlikeInline R s s') :
    List.Forall₂ (MergeStep.Paired (AlikeInline R)) (memberSteps s)
      (memberSteps s') := by
  refine AlikeInline.induct (P := fun s s' =>
    List.Forall₂ (MergeStep.Paired (AlikeInline R)) (memberSteps s)
      (memberSteps s')) ?pointer ?inline h
  case pointer =>
    intro s s' p hs hs'
    rw [memberSteps, memberSteps, hs, hs']
    exact .cons (.follow p) .nil
  case inline =>
    intro s s' hs hs' hnode members
    have hproperties := (members.imp (T := AlikeInline R)
      fun _ _ _ hcc => hcc.1).properties
    rw [memberSteps, memberSteps, hs, hs']
    simp only [Hereditary.mergeSteps_eq, ← hR s s' hnode]
    exact List.rel_append
      (List.rel_flatMap members.allOf fun _ _ hcc => hcc.2)
      (.cons (.declare _ hproperties) .nil)

/-- So are schemas that are no pointers. -/
theorem mergeSteps_paired
    (hR : ∀ s s' : Schema, R s s' → s.required = s'.required) {s s' : Schema}
    (h : AlikeInline R s s') (hs : s.pointer = none) :
    List.Forall₂ (MergeStep.Paired (AlikeInline R)) s.mergeSteps
      s'.mergeSteps := by
  have hsteps := memberSteps_paired hR h
  rw [memberSteps, memberSteps, ← h.pointer_eq, hs] at hsteps
  exact hsteps

namespace Document.Paired

variable {d d' : Document}

/-- Corresponding steps declare what corresponds, under any one budget. -/
theorem declarations
    (hR : ∀ s s' : Schema, R s s' → s.required = s'.required)
    (h : Document.Paired (AlikeInline R) d d') (budget : Nat)
    (stack : List String) {steps steps' : List MergeStep}
    (hsteps : List.Forall₂ (MergeStep.Paired (AlikeInline R)) steps steps') :
    List.Forall₂ (Declaration.Paired (AlikeInline R))
      (d.declarations budget stack steps)
      (d'.declarations budget stack steps') := by
  induction budget generalizing stack steps steps' with
  | zero =>
      refine List.rel_flatMap hsteps fun step step' hstep => ?_
      cases hstep with
      | follow p => exact .nil
      | declare required hproperties => exact .cons ⟨hproperties, rfl⟩ .nil
  | succ budget ih =>
      refine List.rel_flatMap hsteps fun step step' hstep => ?_
      cases hstep with
      | declare required hproperties => exact .cons ⟨hproperties, rfl⟩ .nil
      | follow p =>
          dsimp only
          split
          · exact .nil
          -- the pointer is followed on both sides or on neither
          match d.resolveSchema p, d'.resolveSchema p, h.resolveSchema p with
          | _, _, .error e => exact .nil
          | .ok target, .ok _, .ok htarget =>
              dsimp only
              rw [← htarget.pointer_eq]
              cases hpointer : target.pointer with
              | some q => exact .nil
              | none => exact ih _ (mergeSteps_paired hR htarget hpointer)

/-- Schemas that correspond declare what corresponds, each under the budget of
its own document. -/
theorem merge (hR : ∀ s s' : Schema, R s s' → s.required = s'.required)
    (h : Document.Paired (AlikeInline R) d d') {s s' : Schema}
    (hs : AlikeInline R s s') (hpointer : s.pointer = none) :
    List.Forall₂ (Declaration.Paired (AlikeInline R)) (d.merge s)
      (d'.merge s') := by
  rw [d.merge_eq s (Nat.le_max_left _ (d'.mergePointers s').length),
    d'.merge_eq s' (Nat.le_max_right (d.mergePointers s).length _)]
  exact h.declarations hR _ [] (mergeSteps_paired hR hs hpointer)

end Document.Paired

theorem Table.Alike.ofList {P : α → α → Prop} {l l' : List (String × α)}
    (h : List.Forall₂ (Keyed P) l l') :
    Table.Alike P (Table.ofList l) (Table.ofList l') :=
  Table.alike_iff_matched.2 (Table.alike_iff_matched.1 h).ofList

/-- Paired declarations have like properties in all. -/
theorem Declaration.Paired.allProperties {ds ds' : List Declaration}
    (h : List.Forall₂ (Declaration.Paired S) ds ds') :
    Table.Alike S (Declaration.allProperties ds)
      (Declaration.allProperties ds') :=
  Table.Alike.ofList (List.rel_flatMap h fun _ _ hd => hd.properties)

-- ================================================================= shapes

/-- Values that are found alike for members that correspond. -/
theorem mapM_eq_of_forall₂ {P : α → α → Prop} {f g : α → Option β}
    {l l' : List α} (h : List.Forall₂ P l l')
    (hfg : ∀ a a', P a a' → f a = g a') : l.mapM f = l'.mapM g := by
  induction h with
  | nil => rfl
  | cons ha _ ih => rw [List.mapM_cons, List.mapM_cons, hfg _ _ ha, ih]

theorem isEmpty_of_forall₂ {P : α → α → Prop} {l l' : List α}
    (h : List.Forall₂ P l l') : l.isEmpty = l'.isEmpty := by
  cases h <;> rfl

section

variable {shapeOf shapeOf' : Schema → Option Shape} {s s' : Schema}

/-- The fields of a record are found alike if the shapes of its properties
are. -/
theorem recordShape?_paired
    (hshape : ∀ s s', ReadAlike s s' → shapeOf s = shapeOf' s')
    {properties properties' : Table Schema}
    (h : Table.Alike ReadAlike properties properties')
    (required : List String) :
    Schema.recordShape? shapeOf properties required
      = Schema.recordShape? shapeOf' properties' required := by
  rw [Schema.recordShape?, Schema.recordShape?]
  refine congrArg (· >>= fun fields => pure (Shape.record fields))
    (mapM_eq_of_forall₂ h fun e e' he => ?_)
  cases he with
  | intro hs => simp only [hs.ownDescription, hshape _ _ hs]

/-- Objects that are read alike have the same shape. -/
theorem objectShape?_paired
    (hshape : ∀ s s', ReadAlike s s' → shapeOf s = shapeOf' s')
    (hread : SameRead s s') (members : Schema.Members ReadAlike s s') :
    s.objectShape? shapeOf = s'.objectShape? shapeOf' := by
  rw [Schema.objectShape?, Schema.objectShape?, hread.required,
    isEmpty_of_forall₂ members.properties,
    recordShape?_paired hshape members.properties]
  congr 1
  match s.additional, s'.additional, members.additional with
  | _, _, .none => rfl
  | _, _, .some (.allowed yes) => rfl
  | _, _, .some (.shaped hvalue) =>
      exact congrArg (Option.map Shape.map) (hshape _ _ hvalue)

/-- Schemas without members that are read alike have the same shape. -/
theorem plainShape?_paired
    (hshape : ∀ s s', ReadAlike s s' → shapeOf s = shapeOf' s')
    (hread : SameRead s s') (members : Schema.Members ReadAlike s s') :
    s.plainShape? shapeOf = s'.plainShape? shapeOf' := by
  rw [Schema.plainShape?, Schema.plainShape?, hread.primary, hread.format,
    Schema.textLiterals, Schema.textLiterals, hread.literals,
    objectShape?_paired hshape hread members,
    isEmpty_of_forall₂ members.oneOf, isEmpty_of_forall₂ members.anyOf,
    isEmpty_of_forall₂ members.properties]
  match s.items, s'.items, members.items with
  | _, _, .none => rfl
  | _, _, .some hitem => simp only [hshape _ _ hitem]

end

namespace Document.Paired

variable {d d' : Document} {s s' : Schema}

/-- Schemas that are read alike are merged to the same shape. -/
theorem mergedShape? (h : Document.Paired ReadAlike d d')
    {shapeOf shapeOf' : Schema → Option Shape}
    (hshape : ∀ s s', ReadAlike s s' → shapeOf s = shapeOf' s')
    (hs : ReadAlike s s') (hpointer : s.pointer = none) :
    d.mergedShape? shapeOf s = d'.mergedShape? shapeOf' s' := by
  have hmerge := h.merge (fun _ _ hread => hread.required) hs hpointer
  have hrequired : (d.merge s).flatMap (·.required)
      = (d'.merge s').flatMap (·.required) :=
    flatMap_eq_of_forall₂ hmerge fun _ _ hd => hd.required
  rw [Document.mergedShape?, Document.mergedShape?, hrequired]
  exact recordShape?_paired hshape
    (Declaration.Paired.allProperties hmerge) _

/-- One level of a shape is the same in both documents if those below are. -/
theorem shapeStep? (h : Document.Paired ReadAlike d d')
    {shapeOf shapeOf' : Schema → Option Shape}
    (hshape : ∀ s s', ReadAlike s s' → shapeOf s = shapeOf' s')
    (hs : ReadAlike s s') :
    d.shapeStep? shapeOf s = d'.shapeStep? shapeOf' s' := by
  rw [Document.shapeStep?, Document.shapeStep?, ← hs.pointer_eq]
  cases hpointer : s.pointer with
  | some p => rfl
  | none =>
      obtain ⟨hread, members⟩ := hs.unfold hpointer
      have hmerged := h.mergedShape? hshape hs hpointer
      dsimp only
      match s.allOf, s'.allOf, members.allOf with
      | _, _, .nil => exact plainShape?_paired hshape hread members
      | _, _, .cons hsingle .nil =>
          dsimp only
          rw [isEmpty_of_forall₂ members.properties, hmerged,
            hshape _ _ hsingle]
      | _, _, .cons _ (.cons _ _) => exact hmerged

/-- Schemas of which the same is read have the same shape at every depth. -/
theorem shapeWithin? (h : Document.Paired ReadAlike d d') (depth : Nat)
    (hs : ReadAlike s s') :
    d.shapeWithin? depth s = d'.shapeWithin? depth s' := by
  induction depth generalizing s s' with
  | zero => rfl
  | succ depth ih =>
      rw [shapeWithin?_succ, shapeWithin?_succ]
      exact h.shapeStep? (fun _ _ hss => ih hss) hs

/-- Schemas of the documents of which the same is read have the same shape, or
no finite one both. -/
theorem shape? (h : Document.Paired ReadAlike d d') (hs : ReadAlike s s')
    (hmem : s ∈ d.nodes) (hmem' : s' ∈ d'.nodes) :
    d.shape? s = d'.shape? s' := by
  refine Option.ext fun shape => ?_
  rw [shape?_eq_some_iff hmem, shape?_eq_some_iff hmem']
  simp only [h.shapeWithin? _ hs]

end Document.Paired

/-- Two schemas have the same shape, each in its document, and the same
description. -/
structure Document.SameShape (d d' : Document) (s s' : Schema) : Prop where
  shape : d.shape? s = d'.shape? s'
  description : s.ownDescription = s'.ownDescription

/-- Documents whose schemas are read alike are paired by shapes. -/
theorem Document.Paired.sameShape {d d' : Document}
    (h : Document.Paired ReadAlike d d') :
    Document.Paired (Document.SameShape d d') d d' := by
  have node {d : Document} {s : Schema} (hs : s ∈ d.roots) : s ∈ d.nodes :=
    List.mem_flatMap.2 ⟨s, hs, s.mem_nodes_self⟩
  exact h.imp fun s hs s' hs' hss =>
    ⟨h.shape? hss (node hs) (node hs'), hss.ownDescription⟩

end ApiForge
