import ApiForge.Proofs.Artifact.Hoisting
/-!
Which shape is defined under which name.

A definition mentions names, and these are offered to the inline shapes in it
(`Definition.of_offers`). Other shapes may have been offered the same names
before. A name is given to the first shape that it is offered to; whatever else
is offered the name is passed over, and what would have been hoisted out of it is
never offered at all.

`Hoisted.firsts` are the offers that are the first under their names, when some
names are taken. What is offered in the end goes on with what is hoisted out of
just these, and this determines all offers from the first ones
(`Hoisted.history_unique`): what is hoisted out of a definition is smaller than
its shape (`Hoisted.weight_hoists_lt`).
-/

namespace ApiForge

open Hoist (express fieldHint)
open Hoisted (weight weight_append)

-- ================================================================== places

namespace Shape

/-- The record or choice that is left of a shape without the lists and maps
around it. -/
def inline? : Shape → Option Shape
  | list item => item.inline?
  | map value => value.inline?
  | record fields => some (record fields)
  | choice literals => some (choice literals)
  | _ => none

/-- The shapes whose types are written in the definition of a shape. -/
def places : Shape → List Shape
  | record fields => fields.map (·.shape)
  | choice _ => []
  | shape => [shape]

end Shape

/-- What is hoisted out of the definition of a shape under a name. -/
def Hoisted.hoists (p : Hoisted) : List Hoisted :=
  match p.shape with
  | .record fields =>
    fields.flatMap fun f => (express (fieldHint p.name f) f.shape).2
  | .choice _ => []
  | shape => (express p.name shape).2

/-- The type expression of a shape mentions what it hoists, and this is the
inline shape in it. -/
theorem express_inline (hint : String) (shape : Shape) :
    ∀ n ∈ (express hint shape).1.hoistedNames,
      ∃ y, shape.inline? = some y ∧ ⟨n, y⟩ ∈ (express hint shape).2 := by
  match shape with
  | .list item => exact express_inline (hint ++ "Item") item
  | .map value => exact express_inline (hint ++ "Value") value
  | .record _ | .choice _ =>
      intro n hn
      cases List.mem_singleton.1 hn
      exact ⟨_, rfl, List.mem_singleton_self _⟩
  | .named _ | .text | .date | .dateTime | .int32 | .int64 | .float32
  | .float64 | .bool | .any => exact fun n hn => absurd hn List.not_mem_nil

-- ============================================================= definitions

variable {c : Catalog}

/-- The definition of a shape under a name. -/
def Definition.of (c : Catalog) (name : String) (description : Option String)
    (shape : Shape) : Definition :=
  (Definition.ofShape c name description shape {}).1

namespace Definition

/-- The field of a struct. -/
def fieldOf (c : Catalog) (owner : String) (i : Nat) (f : Field) :
    StructField :=
  ⟨fieldIdent f.name i, f.name, f.required, f.description,
    (Hoist.renderField c f owner {}).1⟩

/-- The fields of a struct do not depend on the queue. -/
theorem fieldsOf_eq (owner : String) (i : Nat) (fields : List Field)
    (h : Hoist) :
    fieldsOf c owner i fields h
      = ((fieldsOf c owner i fields {}).1,
          { h with pending := h.pending ++ fields.flatMap fun f =>
              (express (fieldHint owner f) f.shape).2 }) := by
  induction fields generalizing i h with
  | nil => rw [List.flatMap_nil, List.append_nil]; rfl
  | cons f rest ih =>
      have hstep (h : Hoist) : fieldsOf c owner i (f :: rest) h
          = let (fs, h') := fieldsOf c owner (i + 1) rest
              { h with pending :=
                  h.pending ++ (express (fieldHint owner f) f.shape).2 }
            (fieldOf c owner i f :: fs, h') := rfl
      rw [hstep h, hstep {}, ih (i + 1) ⟨h.pending ++ _, h.claimed⟩,
        ih (i + 1) ⟨[] ++ _, []⟩, List.flatMap_cons, List.append_assoc]

theorem fieldsOf_cons (owner : String) (i : Nat) (f : Field)
    (rest : List Field) :
    (fieldsOf c owner i (f :: rest) {}).1
      = fieldOf c owner i f :: (fieldsOf c owner (i + 1) rest {}).1 := by
  show fieldOf c owner i f :: (fieldsOf c owner (i + 1) rest _).1 = _
  rw [fieldsOf_eq]

/-- A shape that does not stand alone has an alias for its definition. -/
theorem of_alias {shape : Shape} (halone : Hoist.standsAlone shape = false)
    (name : String) (description : Option String) (h : Hoist) :
    ofShape c name description shape h
        = (⟨name, description, .alias (express name shape).1⟩,
            { h with pending := h.pending ++ (express name shape).2 })
      ∧ Hoisted.hoists ⟨name, shape⟩ = (express name shape).2
      ∧ shape.places = [shape] := by
  match shape with
  | .record _ | .choice _ => cases halone
  | .named _ | .list _ | .map _ | .text | .date | .dateTime | .int32 | .int64
  | .float32 | .float64 | .bool | .any => exact ⟨rfl, rfl, rfl⟩

/-- Defining a shape queues what is hoisted out of its definition. -/
theorem ofShape_eq (name : String) (description : Option String)
    (shape : Shape) (h : Hoist) :
    ofShape c name description shape h
      = (Definition.of c name description shape,
          { h with pending :=
              h.pending ++ Hoisted.hoists ⟨name, shape⟩ }) := by
  -- records and choices are defined as such, all other shapes as an alias
  cases halone : Hoist.standsAlone shape with
  | false =>
      obtain ⟨hshape, hhoists, -⟩ := of_alias halone name description h
      obtain ⟨hof, -, -⟩ := of_alias (c := c) halone name description {}
      rw [Definition.of, hof, hshape, hhoists]
  | true =>
      match shape with
      | .record fields =>
          have hstep (h : Hoist) : ofShape c name description (.record fields) h
              = let (fs, h') := fieldsOf c name 0 fields h
                (⟨name, description, .struct fs⟩, h') := rfl
          rw [Definition.of, hstep h, hstep {}, fieldsOf_eq]
          rfl
      | .choice literals =>
          have hnone : h.pending ++ Hoisted.hoists ⟨name, .choice literals⟩
              = h.pending := List.append_nil _
          rw [hnone]
          rfl

/-- A definition differs from that of the same shape without a description in
nothing but the description. -/
theorem of_body (name : String) (description : Option String) (shape : Shape) :
    (Definition.of c name description shape).body
      = (Definition.of c name none shape).body := by
  cases halone : Hoist.standsAlone shape with
  | false =>
      obtain ⟨hof, -, -⟩ := of_alias (c := c) halone name description {}
      obtain ⟨hnone, -, -⟩ := of_alias (c := c) halone name none {}
      rw [Definition.of, Definition.of, hof, hnone]
  | true =>
      match shape with
      | .record _ => rfl
      | .choice _ => rfl

/-- A name that a type expression mentions, and that is no component's, is
offered to the inline shape in the place of the type. -/
def Offers (offers : List Hoisted) (t : TypeExpr) (place : Shape) : Prop :=
  ∀ n ∈ t.hoistedNames, ∃ y, place.inline? = some y ∧ ⟨n, y⟩ ∈ offers

/-- The wrappers around the type of a field mention nothing. -/
theorem hoistedNames_renderField (f : Field) (owner : String) :
    (Hoist.renderField c f owner {}).1.hoistedNames
      = (express (fieldHint owner f) f.shape).1.hoistedNames := by
  unfold Hoist.renderField
  cases c.needsBox f owner <;> cases f.required <;> rfl

/-- The types of the fields are those offered for their shapes. -/
theorem fieldsOf_offers (owner : String) (i : Nat) {fields : List Field}
    {offers : List Hoisted}
    (h : ∀ f ∈ fields, (express (fieldHint owner f) f.shape).2 ⊆ offers) :
    List.Forall₂ (fun s f => Offers offers s.type f.shape)
      (fieldsOf c owner i fields {}).1 fields := by
  induction fields generalizing i with
  | nil => exact .nil
  | cons f rest ih =>
      rw [fieldsOf_cons]
      refine .cons ?_ (ih (i + 1) fun x hx => h x (List.mem_cons_of_mem _ hx))
      intro n hn
      have hn : n ∈ (Hoist.renderField c f owner {}).1.hoistedNames := hn
      rw [hoistedNames_renderField] at hn
      obtain ⟨y, hy, hmem⟩ := express_inline _ _ n hn
      exact ⟨y, hy, h f (List.mem_cons_self ..) hmem⟩

/-- The types in a definition stand in the places of its shape, and what is
hoisted out of it is offered the names in them. -/
theorem of_offers (name : String) (description : Option String)
    (shape : Shape) :
    List.Forall₂ (Offers (Hoisted.hoists ⟨name, shape⟩))
      (Definition.of c name description shape).types shape.places := by
  cases halone : Hoist.standsAlone shape with
  | false =>
      obtain ⟨hof, hhoists, hplaces⟩ :=
        of_alias (c := c) halone name description {}
      rw [Definition.of, hof, hhoists, hplaces]
      exact .cons (express_inline name shape) .nil
  | true =>
      match shape with
      | .record fields =>
          refine List.forall₂_map_left_iff.2 (List.forall₂_map_right_iff.2 ?_)
          refine fieldsOf_offers name 0 fun f hf => ?_
          exact fun p hp => List.mem_flatMap.2 ⟨f, hf, hp⟩
      | .choice _ => exact .nil

end Definition

namespace TypesModule

/-- A definition is that of a shape under a name, whatever its description. -/
def Gives (c : Catalog) (d : Definition) (p : Hoisted) : Prop :=
  d.name = p.name ∧ d.body = (Definition.of c p.name none p.shape).body

/-- A shape is defined under its name, with what is hoisted out of it on offer. -/
theorem gives_of (name : String) (description : Option String)
    (shape : Shape) :
    Gives c (Definition.of c name description shape) ⟨name, shape⟩ := by
  refine ⟨?_, Definition.of_body name description shape⟩
  match shape with
  | .record _ | .choice _ | .named _ | .list _ | .map _ | .text | .date
  | .dateTime | .int32 | .int64 | .float32 | .float64 | .bool | .any => rfl

end TypesModule

-- ================================================================== offers

namespace Hoisted

/-- The offers of names that are not taken and have not been offered before. -/
def firsts (taken : List String) : List Hoisted → List Hoisted
  | [] => []
  | p :: rest =>
    if taken.contains p.name then firsts taken rest
    else p :: firsts (p.name :: taken) rest

variable {taken taken' : List String} {p : Hoisted} {l : List Hoisted}

theorem firsts_cons_of_mem (h : p.name ∈ taken) (rest : List Hoisted) :
    firsts taken (p :: rest) = firsts taken rest := by
  rw [firsts, if_pos (List.contains_iff_mem.2 h)]

theorem firsts_cons_of_not_mem (h : p.name ∉ taken) (rest : List Hoisted) :
    firsts taken (p :: rest) = p :: firsts (p.name :: taken) rest := by
  rw [firsts, if_neg (mt List.contains_iff_mem.1 h)]

/-- It does not matter in which order names have been taken. -/
theorem firsts_congr (h : ∀ n, n ∈ taken ↔ n ∈ taken') (l : List Hoisted) :
    firsts taken l = firsts taken' l := by
  induction l generalizing taken taken' with
  | nil => rfl
  | cons p rest ih =>
      by_cases hp : p.name ∈ taken
      · rw [firsts_cons_of_mem hp, firsts_cons_of_mem ((h _).1 hp), ih h]
      · rw [firsts_cons_of_not_mem hp, firsts_cons_of_not_mem (mt (h _).2 hp)]
        refine congrArg (p :: ·) (ih fun n => ?_)
        rw [List.mem_cons, List.mem_cons, h]

/-- Nothing is the first under a name that is taken. -/
theorem firsts_of_taken (h : ∀ p ∈ l, p.name ∈ taken) :
    firsts taken l = [] := by
  induction l with
  | nil => rfl
  | cons p rest ih =>
      rw [firsts_cons_of_mem (h p (List.mem_cons_self ..))]
      exact ih fun q hq => h q (List.mem_cons_of_mem _ hq)

/-- Every name that is offered is taken in the end. -/
theorem mem_names_firsts (taken : List String) (l : List Hoisted) (n : String) :
    n ∈ (firsts taken l).map (·.name) ∨ n ∈ taken
      ↔ n ∈ l.map (·.name) ∨ n ∈ taken := by
  induction l generalizing taken with
  | nil => rfl
  | cons p rest ih =>
      rw [List.map_cons, List.mem_cons]
      by_cases hp : p.name ∈ taken
      · rw [firsts_cons_of_mem hp, ih, or_assoc]
        refine (or_iff_right_of_imp ?_).symm
        rintro rfl
        exact .inr hp
      · have hrest := ih (p.name :: taken)
        rw [List.mem_cons, or_left_comm, or_left_comm (b := n = p.name)] at hrest
        rw [firsts_cons_of_not_mem hp, List.map_cons, List.mem_cons, or_assoc,
          or_assoc]
        exact hrest

/-- To the offers that come behind, all names before are taken. -/
theorem firsts_append (taken : List String) (l l' : List Hoisted) :
    firsts taken (l ++ l')
      = firsts taken l ++ firsts (l.map (·.name) ++ taken) l' := by
  induction l generalizing taken with
  | nil => rfl
  | cons p rest ih =>
      rw [List.cons_append, List.map_cons]
      -- whether the first name is taken or not, it is among the names before
      by_cases hp : p.name ∈ taken
      · rw [firsts_cons_of_mem hp, firsts_cons_of_mem hp, ih]
        refine congrArg (_ ++ ·) (firsts_congr (fun n => ?_) l')
        rw [List.cons_append, List.mem_cons]
        refine (or_iff_right_of_imp ?_).symm
        rintro rfl
        exact List.mem_append_right _ hp
      · rw [firsts_cons_of_not_mem hp, firsts_cons_of_not_mem hp, ih,
          List.cons_append]
        refine congrArg (fun rest => p :: (_ ++ rest))
          (firsts_congr (fun n => ?_) l')
        simp only [List.mem_append, List.mem_cons, or_assoc]
        exact or_left_comm

/-- The first offers under their names have different names, and none of these
was taken before. -/
theorem nodup_firsts (taken : List String) (l : List Hoisted) :
    ((firsts taken l).map (·.name)).Nodup
      ∧ ∀ p ∈ firsts taken l, p.name ∉ taken := by
  induction l generalizing taken with
  | nil => exact ⟨List.nodup_nil, fun p hp => absurd hp List.not_mem_nil⟩
  | cons p rest ih =>
      by_cases hp : p.name ∈ taken
      · rw [firsts_cons_of_mem hp]
        exact ih taken
      · rw [firsts_cons_of_not_mem hp, List.map_cons, List.nodup_cons]
        obtain ⟨hnodup, hfree⟩ := ih (p.name :: taken)
        refine ⟨⟨fun hmem => ?_, hnodup⟩, fun q hq => ?_⟩
        · obtain ⟨q, hq, hname⟩ := List.mem_map.1 hmem
          exact hfree q hq (hname ▸ List.mem_cons_self ..)
        · rcases List.mem_cons.1 hq with rfl | hq
          · exact hp
          · exact fun hmem => hfree q hq (List.mem_cons_of_mem _ hmem)

/-- Offers of different names, of which none is taken, are all the first. -/
theorem firsts_of_nodup (hnodup : (l.map (·.name)).Nodup)
    (hfree : ∀ p ∈ l, p.name ∉ taken) : firsts taken l = l := by
  induction l generalizing taken with
  | nil => rfl
  | cons p rest ih =>
      rw [List.map_cons, List.nodup_cons] at hnodup
      rw [firsts_cons_of_not_mem (hfree p (List.mem_cons_self ..))]
      refine congrArg (p :: ·) (ih hnodup.2 fun q hq => ?_)
      rw [List.mem_cons, not_or]
      refine ⟨fun hname => hnodup.1 ?_, hfree q (List.mem_cons_of_mem _ hq)⟩
      exact hname ▸ List.mem_map_of_mem hq

/-- The first offers stand in the order in which all are made. -/
theorem firsts_sublist (taken : List String) (l : List Hoisted) :
    (firsts taken l).Sublist l := by
  induction l generalizing taken with
  | nil => exact .slnil
  | cons p rest ih =>
      by_cases hp : p.name ∈ taken
      · rw [firsts_cons_of_mem hp]
        exact .cons _ (ih taken)
      · rw [firsts_cons_of_not_mem hp]
        exact .cons_cons _ (ih _)

/-- The offer to which a name is given: the first under that name. -/
def holder (offers : List Hoisted) (name : String) : Option Hoisted :=
  offers.find? fun p => p.name == name

/-- Each of the first offers under their names holds its name. -/
theorem holder_of_mem_firsts (hp : p ∈ firsts taken l) :
    holder l p.name = some p := by
  induction l generalizing taken with
  | nil => exact absurd hp List.not_mem_nil
  | cons q rest ih =>
      rw [holder, List.find?_cons]
      -- a taken name belongs to none of the first offers, and a free one to this one
      -- only
      by_cases hq : q.name ∈ taken
      · rw [firsts_cons_of_mem hq] at hp
        have hne : q.name ≠ p.name :=
          ne_of_mem_of_not_mem hq ((nodup_firsts taken rest).2 p hp)
        rw [beq_false_of_ne hne]
        exact ih hp
      · rw [firsts_cons_of_not_mem hq] at hp
        rcases List.mem_cons.1 hp with rfl | hp
        · rw [beq_self_eq_true]
        · have hfree := (nodup_firsts (q.name :: taken) rest).2 p hp
          have hne : q.name ≠ p.name :=
            ne_of_mem_of_not_mem (List.mem_cons_self ..) hfree
          rw [beq_false_of_ne hne]
          exact ih hp

/-- What the fields of a record hoist is no larger than the fields. -/
theorem weight_fields_le (owner : String) (fields : List Field) :
    weight (fields.flatMap fun f => (express (fieldHint owner f) f.shape).2)
      ≤ Shape.sizeOfFields fields := by
  induction fields with
  | nil => exact Nat.le_refl _
  | cons f rest ih =>
      have hfield := (Hoist.express_spec (fieldHint owner f) f.shape).weight
      rw [List.flatMap_cons, weight_append, Shape.sizeOfFields]
      omega

/-- What is hoisted out of a definition is smaller than its shape. -/
theorem weight_hoists_lt (p : Hoisted) : weight p.hoists < p.shape.size := by
  obtain ⟨name, shape⟩ := p
  cases halone : Hoist.standsAlone shape with
  | false =>
      obtain ⟨-, hhoists, -⟩ :=
        Definition.of_alias (c := ⟨{}, [], [], []⟩) halone name none {}
      rw [hhoists]
      exact Hoist.weight_express_lt halone
  | true =>
      match shape with
      | .choice _ => exact Shape.size_pos _
      | .record fields => exact Nat.lt_succ_of_le (weight_fields_le name fields)

/-- What is hoisted out of all of some definitions is smaller than these. -/
theorem weight_flatMap_hoists_le (l : List Hoisted) :
    weight (l.flatMap hoists) + l.length ≤ weight l := by
  induction l with
  | nil => exact Nat.le_refl _
  | cons p rest ih =>
      have hp := p.weight_hoists_lt
      rw [List.flatMap_cons, weight_append, List.length_cons, weight]
      omega

/-- Some of the offers weigh no more than all of them. -/
theorem weight_sublist {l l' : List Hoisted} (h : l.Sublist l') :
    weight l ≤ weight l' := by
  induction h with
  | slnil => exact Nat.le_refl _
  | cons p _ ih =>
      rw [weight]
      omega
  | cons_cons p _ ih =>
      rw [weight, weight]
      omega

/-- A history in which nothing is queued at the beginning is empty. -/
theorem history_nil {queue : List Hoisted}
    (h : queue = (firsts taken queue).flatMap hoists) : queue = [] := by
  have hlength := weight_flatMap_hoists_le (firsts taken queue)
  have hle := weight_sublist (firsts_sublist taken queue)
  have hweight := congrArg weight h
  have hnone : (firsts taken queue).length = 0 := by omega
  rw [h, List.eq_nil_of_length_eq_zero hnone, List.flatMap_nil]

/-- What is queued at the beginning, and which names are taken, determine the
history of a queue. -/
theorem history_unique {start queue queue' : List Hoisted}
    (h : queue = start ++ (firsts taken queue).flatMap hoists)
    (h' : queue' = start ++ (firsts taken queue').flatMap hoists) :
    queue = queue' := by
  -- each turn puts lighter offers in the place of the one that it takes, so the weight
  -- of what is queued decides which history is shorter
  induction hn : weight start using Nat.strong_induction_on
    generalizing start taken queue queue' with | h n ih => ?_
  cases start with
  | nil => rw [history_nil h, history_nil h']
  | cons p rest =>
      rw [List.cons_append] at h h'
      obtain ⟨queue, rfl⟩ : ∃ tail, queue = p :: tail := ⟨_, h⟩
      obtain ⟨queue', rfl⟩ : ∃ tail, queue' = p :: tail := ⟨_, h'⟩
      have hsize := p.weight_hoists_lt
      rw [weight] at hn
      refine congrArg (p :: ·) ?_
      -- the oldest offer is passed over in both histories, or taken in both
      by_cases hp : p.name ∈ taken
      · rw [firsts_cons_of_mem hp, List.cons.injEq] at h h'
        exact ih (weight rest) (by omega) h.2 h'.2 rfl
      · rw [firsts_cons_of_not_mem hp, List.flatMap_cons, List.cons.injEq,
          ← List.append_assoc] at h h'
        refine ih (weight (rest ++ hoists p)) ?_ h.2 h'.2 rfl
        rw [weight_append]
        omega

end Hoisted

end ApiForge
