import ApiForge.Artifact.Types
import ApiForge.Proofs.Shape.Parts
/-!
What hoisting keeps.

# The invariant

Writing an artifact makes type expressions, and these mention names: those of
component schemas, and those under which shapes have been queued. `Hoist.Closed`
relates what has been written, which names have been defined, and what is
still in the queue: a queued name that has been mentioned is either defined or
in the queue, no name is defined twice, and neither what has been written nor
what is queued mentions a component schema outside a given set. When the queue
is empty, every queued name that has been mentioned is defined
(`Closed.defined_of_empty`).

# Its steps

Rendering a shape, defining one, and taking the next one from the queue keep
the invariant; `drain` repeats the last two. A defined shape queues only shapes
smaller than itself taken together (`weight`), so the bound of `drain` is never
met and it leaves an empty queue (`drain_ends`).
-/

namespace ApiForge

-- ============================================================ mentions

namespace TypeExpr

/-- The types of the target language and its libraries that are in use. -/
def primitives : List String :=
  ["String", "chrono::NaiveDate", "chrono::DateTime<chrono::Utc>", "i32",
    "i64", "f32", "f64", "bool", "serde_json::Value"]

/-- The types of the target language that a type expression mentions. -/
def builtins : TypeExpr → List String
  | builtin text => [text]
  | component _ => []
  | hoisted _ => []
  | list item => item.builtins
  | map value => value.builtins
  | box inner => inner.builtins
  | optional inner => inner.builtins

/-- The component schemas that a type expression mentions. -/
def components : TypeExpr → List String
  | builtin _ => []
  | component name => [name]
  | hoisted _ => []
  | list item => item.components
  | map value => value.components
  | box inner => inner.components
  | optional inner => inner.components

/-- The queued names that a type expression mentions. -/
def hoistedNames : TypeExpr → List String
  | builtin _ => []
  | component _ => []
  | hoisted name => [name]
  | list item => item.hoistedNames
  | map value => value.hoistedNames
  | box inner => inner.hoistedNames
  | optional inner => inner.hoistedNames

end TypeExpr

/-- The type expressions in a definition: those of the fields of a struct, and
the target of an alias. -/
def Definition.types (d : Definition) : List TypeExpr :=
  match d.body with
  | .struct fields => fields.map (·.type)
  | .enumeration _ => []
  | .alias target => [target]

theorem Hoisted.weight_append (l l' : List Hoisted) :
    weight (l ++ l') = weight l + weight l' := by
  induction l with
  | nil => rw [List.nil_append, weight, Nat.zero_add]
  | cons p l ih => rw [List.cons_append, weight, weight, ih, Nat.add_assoc]

namespace Hoist

open Hoisted (weight weight_append)

variable {h : Hoist}

-- =========================================================== expressing

/-- A type expression of a shape, with what it hoists: the expression mentions
primitives, the components of the shape and the names of what it hoists, and
this is made of the shape. -/
structure Expresses (shape : Shape) (e : TypeExpr) (l : List Hoisted) :
    Prop where
  builtins : e.builtins ⊆ TypeExpr.primitives
  components : e.components ⊆ shape.names
  hoisted : ∀ n ∈ e.hoistedNames, ∃ p ∈ l, p.name = n
  names : ∀ p ∈ l, p.shape.names ⊆ shape.names
  weight : weight l ≤ shape.size

/-- A shape that is expressed without hoisting. -/
theorem Expresses.plain {shape : Shape} {text : String}
    (htext : text ∈ TypeExpr.primitives) :
    Expresses shape (.builtin text) [] where
  builtins := List.cons_subset.2 ⟨htext, List.nil_subset _⟩
  components := List.nil_subset _
  hoisted := fun _ hn => absurd hn List.not_mem_nil
  names := fun _ hp => absurd hp List.not_mem_nil
  weight := Nat.zero_le _

/-- A shape that is hoisted as it stands. -/
theorem Expresses.whole {shape : Shape} {name : String} :
    Expresses shape (.hoisted name) [⟨name, shape⟩] where
  builtins := List.nil_subset _
  components := List.nil_subset _
  hoisted := fun n hn =>
    ⟨_, List.mem_singleton_self _, (List.mem_singleton.1 hn).symm⟩
  names := by
    intro p hp
    cases List.mem_singleton.1 hp
    exact List.Subset.refl _
  weight := by simp [Hoisted.weight]

/-- What `express` gives for a shape. -/
theorem express_spec (hint : String) (shape : Shape) :
    Expresses shape (express hint shape).1 (express hint shape).2 := by
  match shape with
  | .named name =>
      exact ⟨List.nil_subset _, List.Subset.refl _,
        fun _ hn => absurd hn List.not_mem_nil,
        fun _ hp => absurd hp List.not_mem_nil, Nat.zero_le _⟩
  | .list item =>
      obtain ⟨hb, hc, hh, hn, hw⟩ := express_spec (hint ++ "Item") item
      exact ⟨hb, hc, hh, hn, Nat.le_succ_of_le hw⟩
  | .map value =>
      obtain ⟨hb, hc, hh, hn, hw⟩ := express_spec (hint ++ "Value") value
      exact ⟨hb, hc, hh, hn, Nat.le_succ_of_le hw⟩
  | .record _ | .choice _ => exact .whole
  | .text | .date | .dateTime | .int32 | .int64 | .float32 | .float64 | .bool
  | .any => exact .plain (by decide)

/-- Whether a shape is defined by its own definition and not by an alias. -/
def standsAlone : Shape → Bool
  | .record _ => true
  | .choice _ => true
  | _ => false

/-- What an alias hoists is smaller than the shape. -/
theorem weight_express_lt {hint : String} {shape : Shape}
    (h : standsAlone shape = false) :
    weight (express hint shape).2 < shape.size := by
  match shape with
  | .list item =>
      exact Nat.lt_succ_of_le (express_spec (hint ++ "Item") item).weight
  | .map value =>
      exact Nat.lt_succ_of_le (express_spec (hint ++ "Value") value).weight
  | .record _ | .choice _ => cases h
  | .named _ | .text | .date | .dateTime | .int32 | .int64 | .float32
  | .float64 | .bool | .any => exact Shape.size_pos _

-- ============================================================ invariant

/-- A name is defined, or queued to be. -/
def Knows (h : Hoist) (name : String) : Prop :=
  name ∈ h.claimed ∨ ∃ p ∈ h.pending, p.name = name

/-- What has been written is closed up to the queue: `T` are the component
schemas that may be mentioned, `written` the type expressions made so far, and
`defined` the names taken so far. -/
structure Closed (T : String → Prop) (written : List TypeExpr)
    (defined : List String) (h : Hoist) : Prop where
  claimed : ∀ n, n ∈ h.claimed ↔ n ∈ defined
  nodup : defined.Nodup
  pending : ∀ p ∈ h.pending, ∀ n ∈ p.shape.names, T n
  builtins : ∀ e ∈ written, e.builtins ⊆ TypeExpr.primitives
  components : ∀ e ∈ written, ∀ n ∈ e.components, T n
  hoisted : ∀ e ∈ written, ∀ n ∈ e.hoistedNames, h.Knows n

variable {T : String → Prop} {written : List TypeExpr} {defined : List String}

/-- Before anything is written. -/
theorem closed_nil : Closed T [] [] {} where
  claimed := fun _ => Iff.rfl
  nodup := List.nodup_nil
  pending := fun _ hp => absurd hp List.not_mem_nil
  builtins := fun _ he => absurd he List.not_mem_nil
  components := fun _ he => absurd he List.not_mem_nil
  hoisted := fun _ he => absurd he List.not_mem_nil

/-- When nothing is queued, every queued name that was mentioned is defined. -/
theorem Closed.defined_of_empty (hc : Closed T written defined h)
    (hempty : h.pending = []) :
    ∀ e ∈ written, ∀ n ∈ e.hoistedNames, n ∈ defined := by
  intro e he n hn
  rcases hc.hoisted e he n hn with hn | ⟨p, hp, -⟩
  · exact (hc.claimed n).1 hn
  · rw [hempty] at hp
    exact absurd hp List.not_mem_nil

/-- An expression of a shape is written, and what it hoists is queued. -/
theorem Closed.write (hc : Closed T written defined h) {shape : Shape}
    {e : TypeExpr} {l : List Hoisted} (he : Expresses shape e l)
    (hT : ∀ n ∈ shape.names, T n) :
    Closed T (written ++ [e]) defined { h with pending := h.pending ++ l } where
  claimed := hc.claimed
  nodup := hc.nodup
  pending := by
    intro p hp n hn
    rcases List.mem_append.1 hp with hp | hp
    · exact hc.pending p hp n hn
    · exact hT n (he.names p hp hn)
  builtins := by
    intro x hx
    rcases List.mem_append.1 hx with hx | hx
    · exact hc.builtins x hx
    · cases List.mem_singleton.1 hx
      exact he.builtins
  components := by
    intro x hx n hn
    rcases List.mem_append.1 hx with hx | hx
    · exact hc.components x hx n hn
    · cases List.mem_singleton.1 hx
      exact hT n (he.components hn)
  hoisted := by
    intro x hx n hn
    rcases List.mem_append.1 hx with hx | hx
    · rcases hc.hoisted x hx n hn with hn | ⟨p, hp, hname⟩
      · exact .inl hn
      · exact .inr ⟨p, List.mem_append_left _ hp, hname⟩
    · cases List.mem_singleton.1 hx
      obtain ⟨p, hp, hname⟩ := he.hoisted n hn
      exact .inr ⟨p, List.mem_append_right _ hp, hname⟩

/-- Taking a free name. -/
theorem Closed.claim (hc : Closed T written defined h) {name : String}
    (hfree : name ∉ h.claimed) :
    Closed T written (defined ++ [name])
      { h with claimed := name :: h.claimed } where
  claimed := by
    intro n
    rw [List.mem_cons, List.mem_append, List.mem_singleton, hc.claimed]
    exact or_comm
  nodup := by
    rw [hc.claimed] at hfree
    exact List.nodup_append.2 ⟨hc.nodup, List.nodup_singleton name,
      fun a ha b hb => by
        cases List.mem_singleton.1 hb
        exact ne_of_mem_of_not_mem ha hfree⟩
  pending := hc.pending
  builtins := hc.builtins
  components := hc.components
  hoisted := by
    intro e he n hn
    exact (hc.hoisted e he n hn).imp_left (List.mem_cons_of_mem _)

/-- What is passed over in a queue stands in front, and its names are taken. -/
theorem firstFree_split {claimed : List String} {l rest : List Hoisted}
    {p : Hoisted} (h : firstFree claimed l = some (p, rest)) :
    ∃ skipped, l = skipped ++ p :: rest
      ∧ (∀ q ∈ skipped, q.name ∈ claimed) ∧ p.name ∉ claimed := by
  induction l with
  | nil => cases h
  | cons q l ih =>
      rw [firstFree] at h
      split at h
      · rename_i htaken
        obtain ⟨skipped, rfl, hskipped, hfree⟩ := ih h
        refine ⟨q :: skipped, rfl, fun x hx => ?_, hfree⟩
        rcases List.mem_cons.1 hx with rfl | hx
        · exact List.contains_iff_mem.1 htaken
        · exact hskipped x hx
      · rename_i hfree
        cases h
        exact ⟨[], rfl, fun x hx => absurd hx List.not_mem_nil,
          mt List.contains_iff_mem.2 hfree⟩

/-- What is passed over in a queue has its name taken. -/
theorem firstFree_some {claimed : List String} {l rest : List Hoisted}
    {p : Hoisted} (h : firstFree claimed l = some (p, rest)) :
    p ∈ l ∧ rest ⊆ l ∧ p.name ∉ claimed
      ∧ (∀ q ∈ l, q.name ∈ claimed ∨ q = p ∨ q ∈ rest)
      ∧ p.shape.size + weight rest ≤ weight l := by
  obtain ⟨skipped, rfl, hskipped, hfree⟩ := firstFree_split h
  refine ⟨List.mem_append_right _ (List.mem_cons_self ..), ?_, hfree, ?_, ?_⟩
  · intro q hq
    exact List.mem_append_right _ (List.mem_cons_of_mem _ hq)
  · intro q hq
    rcases List.mem_append.1 hq with hq | hq
    · exact .inl (hskipped q hq)
    · exact .inr (List.mem_cons.1 hq)
  · rw [weight_append, weight]
    omega

/-- If nothing in a queue is free, all its names are taken. -/
theorem firstFree_none {claimed : List String} {l : List Hoisted}
    (h : firstFree claimed l = none) : ∀ q ∈ l, q.name ∈ claimed := by
  induction l with
  | nil => exact fun q hq => absurd hq List.not_mem_nil
  | cons q l ih =>
      rw [firstFree] at h
      split at h
      · rename_i htaken
        intro x hx
        rcases List.mem_cons.1 hx with rfl | hx
        · exact List.contains_iff_mem.1 htaken
        · exact ih h x hx
      · cases h

/-- Taking the next shape from the queue takes its name. -/
theorem Closed.next (hc : Closed T written defined h) {p : Hoisted}
    {rest : List Hoisted} (hnext : firstFree h.claimed h.pending = some (p, rest)) :
    Closed T written (defined ++ [p.name]) ⟨rest, p.name :: h.claimed⟩ := by
  obtain ⟨-, hrest, hfree, hall, -⟩ := firstFree_some hnext
  have hclaim := hc.claim hfree
  refine ⟨hclaim.claimed, hclaim.nodup, fun q hq => hc.pending q (hrest hq),
    hc.builtins, hc.components, fun e he n hn => ?_⟩
  rcases hc.hoisted e he n hn with hn | ⟨q, hq, rfl⟩
  · exact .inl (List.mem_cons_of_mem _ hn)
  · rcases hall q hq with htaken | rfl | hq
    · exact .inl (List.mem_cons_of_mem _ htaken)
    · exact .inl (List.mem_cons_self ..)
    · exact .inr ⟨q, hq, rfl⟩

/-- When nothing in the queue is free, the queue can be emptied. -/
theorem Closed.empty (hc : Closed T written defined h)
    (hnext : firstFree h.claimed h.pending = none) :
    Closed T written defined { h with pending := [] } := by
  refine ⟨hc.claimed, hc.nodup, fun q hq => absurd hq List.not_mem_nil,
    hc.builtins, hc.components, fun e he n hn => ?_⟩
  rcases hc.hoisted e he n hn with hn | ⟨q, hq, rfl⟩
  · exact .inl hn
  · exact .inl (firstFree_none hnext q hq)

-- ================================================================ steps

/-- From a state a step ends with an answer and in a state as described. -/
def Ends {α : Type} (m : StateM Hoist α) (h : Hoist)
    (Q : α → Hoist → Prop) : Prop :=
  Q (m h).1 (m h).2

namespace Ends

variable {α β : Type} {m : StateM Hoist α} {Q R : α → Hoist → Prop}

theorem pure {a : α} (hQ : Q a h) : Ends (pure a) h Q := hQ

theorem bind {f : α → StateM Hoist β} {Q : β → Hoist → Prop}
    (hm : Ends m h R) (hf : ∀ a h', R a h' → Ends (f a) h' Q) :
    Ends (m >>= f) h Q :=
  hf _ _ hm

theorem mono (hm : Ends m h R) (hRQ : ∀ a h', R a h' → Q a h') :
    Ends m h Q :=
  hRQ _ _ hm

end Ends

/-- The wrappers around the type of a field add no mention. -/
theorem Expresses.field {shape : Shape} {e : TypeExpr} {l : List Hoisted}
    (he : Expresses shape e l) (boxed required : Bool) :
    Expresses shape
      (let e := if boxed then .box e else e
       if required then e else .optional e) l := by
  cases boxed <;> cases required <;>
    exact ⟨he.builtins, he.components, he.hoisted, he.names, he.weight⟩

variable {c : Catalog}

/-- Rendering a shape writes a type expression of it. -/
theorem render_ends (hc : Closed T written defined h) {shape : Shape}
    (hT : ∀ n ∈ shape.names, T n) (hint : String) :
    Ends (render shape hint) h fun e h' =>
      Closed T (written ++ [e]) defined h'
        ∧ h'.pending = h.pending ++ (express hint shape).2 :=
  ⟨hc.write (express_spec hint shape) hT, rfl⟩

/-- Rendering a field writes its type. -/
theorem renderField_ends (hc : Closed T written defined h) {f : Field}
    (hT : ∀ n ∈ f.shape.names, T n) (owner : String) :
    Ends (renderField c f owner) h fun e h' =>
      Closed T (written ++ [e]) defined h'
        ∧ weight h'.pending ≤ weight h.pending + f.shape.size := by
  have he := express_spec (fieldHint owner f) f.shape
  refine ⟨hc.write (he.field (c.needsBox f owner) f.required) hT, ?_⟩
  show weight (h.pending ++ _) ≤ _
  rw [weight_append]
  exact Nat.add_le_add_left he.weight _

end Hoist

namespace Definition

open Hoist
open Hoisted (weight weight_append)

variable {T : String → Prop} {written : List TypeExpr} {defined : List String}
  {c : Catalog} {h : Hoist}

/-- The fields of a struct are written one after the other. -/
theorem fieldsOf_ends (hc : Closed T written defined h) (owner : String)
    (i : Nat) {fields : List Field}
    (hT : ∀ n ∈ Shape.namesOfFields fields, T n) :
    Ends (fieldsOf c owner i fields) h fun fs h' =>
      Closed T (written ++ fs.map (·.type)) defined h'
        ∧ weight h'.pending ≤ weight h.pending + Shape.sizeOfFields fields := by
  induction fields generalizing i written h with
  | nil =>
      refine .pure ⟨?_, Nat.le_refl _⟩
      rw [List.map_nil, List.append_nil]
      exact hc
  | cons f rest ih =>
      rw [Shape.namesOfFields] at hT
      rw [fieldsOf]
      -- the type of this field is written first, and may queue what it hoists
      refine .bind (renderField_ends hc
        (fun n hn => hT n (List.mem_append_left _ hn)) owner) ?_
      rintro type h₁ ⟨hc₁, hw₁⟩
      refine .bind (ih hc₁ (i + 1)
        fun n hn => hT n (List.mem_append_right _ hn)) ?_
      rintro fs h₂ ⟨hc₂, hw₂⟩
      refine .pure ⟨?_, ?_⟩
      · rw [List.map_cons, List.append_cons]
        exact hc₂
      · rw [Shape.sizeOfFields]
        omega

/-- An alias writes its target, and queues less than the shape. -/
theorem alias_ends (hc : Closed T written defined h) {shape : Shape}
    (hT : ∀ n ∈ shape.names, T n) (halone : standsAlone shape = false)
    (name : String) (description : Option String) :
    Ends (do
        let target ← render shape name
        return (⟨name, description, .alias target⟩ : Definition)) h
      fun d h' => d.name = name ∧ Closed T (written ++ d.types) defined h'
        ∧ weight h'.pending < weight h.pending + shape.size := by
  refine .bind (render_ends hc hT name) fun e h' ⟨hc', hp⟩ => ?_
  refine .pure ⟨rfl, hc', ?_⟩
  rw [hp, weight_append]
  exact Nat.add_lt_add_left (weight_express_lt halone) _

/-- Defining a shape writes its types, and queues less than the shape. -/
theorem ofShape_ends (hc : Closed T written defined h) {shape : Shape}
    (hT : ∀ n ∈ shape.names, T n) (name : String)
    (description : Option String) :
    Ends (ofShape c name description shape) h fun d h' =>
      d.name = name ∧ Closed T (written ++ d.types) defined h'
        ∧ weight h'.pending < weight h.pending + shape.size := by
  match shape with
  | .record fields =>
      refine .bind (fieldsOf_ends hc name 0 hT) fun fs h' ⟨hc', hw⟩ => ?_
      exact .pure ⟨rfl, hc', Nat.lt_succ_of_le hw⟩
  | .choice literals =>
      refine .pure ⟨rfl, ?_, Nat.lt_succ_self _⟩
      show Closed T (written ++ []) defined h
      rw [List.append_nil]
      exact hc
  | .named _ | .list _ | .map _ | .text | .date | .dateTime | .int32 | .int64
  | .float32 | .float64 | .bool | .any =>
      exact alias_ends hc hT rfl name description

/-- Taking the next shape takes its name; without one the queue is empty. -/
theorem next_ends (hc : Closed T written defined h) :
    Ends Hoist.next h fun next h' =>
      match next with
      | none => Closed T written defined h' ∧ h'.pending = []
      | some p =>
          Closed T written (defined ++ [p.name]) h'
            ∧ (∀ n ∈ p.shape.names, T n)
            ∧ p.shape.size + weight h'.pending ≤ weight h.pending := by
  unfold Ends Hoist.next
  cases hnext : firstFree h.claimed h.pending with
  | none => exact ⟨hc.empty hnext, rfl⟩
  | some found =>
      obtain ⟨p, rest⟩ := found
      obtain ⟨hp, -, -, -, hw⟩ := firstFree_some hnext
      exact ⟨hc.next hnext, hc.pending p hp, hw⟩

/-- Draining a queue defines what is in it, and leaves it empty if the bound
exceeds its weight. -/
theorem drainWithin_ends (hc : Closed T written defined h) {left : Nat}
    (hleft : weight h.pending < left) :
    Ends (drainWithin c left) h fun ds h' =>
      Closed T (written ++ ds.flatMap types) (defined ++ ds.map (·.name)) h'
        ∧ h'.pending = [] := by
  induction left generalizing written defined h with
  | zero => omega
  | succ left ih =>
      rw [drainWithin]
      refine .bind (next_ends hc) fun next h₁ hnext => ?_
      cases next with
      | none =>
          obtain ⟨hc₁, hempty⟩ := hnext
          refine .pure ⟨?_, hempty⟩
          rw [List.flatMap_nil, List.map_nil, List.append_nil, List.append_nil]
          exact hc₁
      | some p =>
          obtain ⟨hc₁, hT, hw₁⟩ := hnext
          -- what the shape hoists weighs less than the shape, so the bound falls
          refine .bind (ofShape_ends hc₁ hT p.name none) ?_
          intro d h₂ ⟨hname, hc₂, hw₂⟩
          refine .bind (ih hc₂ (by omega)) fun ds h₃ ⟨hc₃, hempty⟩ => ?_
          refine .pure ⟨?_, hempty⟩
          rw [List.flatMap_cons, List.map_cons, hname, ← List.append_assoc,
            List.append_cons]
          exact hc₃

/-- Draining leaves an empty queue. -/
theorem drain_ends (hc : Closed T written defined h) :
    Ends (drain c) h fun ds h' =>
      Closed T (written ++ ds.flatMap types) (defined ++ ds.map (·.name)) h'
        ∧ h'.pending = [] := by
  rw [drain]
  refine .bind (R := fun g h' => g = h ∧ h' = h) ⟨rfl, rfl⟩ ?_
  rintro g h' ⟨rfl, rfl⟩
  exact drainWithin_ends hc (Nat.lt_succ_self _)

end Definition

end ApiForge
