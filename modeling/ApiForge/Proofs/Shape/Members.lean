import ApiForge.Proofs.Shape.Cycle
import ApiForge.Proofs.Shape.Merge
import ApiForge.Proofs.Table
/-!
What a merge takes in.

A schema with members is merged into one record, and this is to have the
properties of all members. A member that is written in place is one (`Member`),
and a member that is a pointer stands for a schema. Which one is said twice:
`LeadsTo` looks through components that are references themselves, `Direct` does
not.

A merge passes over the pointers that it is following. No name is lost by this,
since a shortest way to a declaration follows no pointer twice
(`declares_of_declaredAt`). So a merge declares just what `Direct` members
declare (`declares_merge_iff`). What it does lose stands behind a component that
is a reference: such a member is passed over as well, and silently
(`merge_takes_in`, `merge_loses`).
-/

namespace ApiForge

open Relation
open Hereditary (Written exists_of_mem_mergeSteps memberSteps mergeSteps_eq)

-- ================================================ statement vocabulary

namespace Schema

/-- The shape of a schema is merged from its members: it has some, and not only
one beside which no properties stand. -/
def Merges (s : Schema) : Prop :=
  s.pointer = none ∧ s.allOf ≠ []
    ∧ (s.properties.isEmpty → ∀ single, s.allOf ≠ [single])

end Schema

/-- A schema is a member of another. It stands there itself, or behind a pointer
that does, where `stands` says which schema a pointer stands for. -/
inductive Member (stands : String → Schema → Prop) (s : Schema) : Schema → Prop
  | inside {m : Schema} : m ∈ s.allOf → m.pointer = none → Member stands s m
  | behind {m t : Schema} {p : String} :
      m ∈ s.allOf → m.pointer = some p → stands p t → Member stands s t

/-- A name is declared by a schema, or by a member of a member of it. -/
def Declares (stands : String → Schema → Prop) (s : Schema) (name : String) :
    Prop :=
  ∃ t, ReflTransGen (Member stands) s t ∧ name ∈ Table.keys t.properties

namespace Document

/-- A pointer names a component that is no reference. -/
def Direct (d : Document) (p : String) (t : Schema) : Prop :=
  d.resolveSchema p = .ok t ∧ t.pointer = none

/-- A pointer leads to a schema, perhaps by way of components that are
references themselves. -/
inductive LeadsTo (d : Document) : String → Schema → Prop
  | here {p : String} {t : Schema} : d.Direct p t → LeadsTo d p t
  | on {p q : String} {t u : Schema} :
      d.resolveSchema p = .ok t → t.pointer = some q → LeadsTo d q u →
      LeadsTo d p u

/-- A name is declared behind a reference to a reference: a merge comes to a
pointer that names a component which is a reference, and the schema to which
this leads declares the name. -/
def Loses (d : Document) (s : Schema) (name : String) : Prop :=
  ∃ t, ReflTransGen (Member d.Direct) s t
    ∧ ∃ m ∈ t.allOf, ∃ p, m.pointer = some p
      ∧ ∃ r q, d.resolveSchema p = .ok r ∧ r.pointer = some q
        ∧ ∃ u, d.LeadsTo q u ∧ Declares d.LeadsTo u name

/-- Generation comes to a schema when it maps the document. -/
def ComesTo (d : Document) (s : Schema) : Prop :=
  ∃ root, d.Mapped root ∧ ReflTransGen d.Asks root s

end Document

-- ============================================================== members

variable {stands : String → Schema → Prop} {s t m : Schema} {name : String}

/-- What a member declares is declared. -/
theorem Declares.member (h : Member stands s t) (ht : Declares stands t name) :
    Declares stands s name := by
  obtain ⟨u, hu, hname⟩ := ht
  exact ⟨u, .head h hu, hname⟩

/-- Where pointers stand for more, there are more members of members. -/
theorem Member.mono {more : String → Schema → Prop}
    (h : ∀ p t, stands p t → more p t) (ht : ReflTransGen (Member stands) s t) :
    ReflTransGen (Member more) s t := by
  refine ReflTransGen.mono (fun a b hab => ?_) s t ht
  cases hab with
  | inside hm hp => exact .inside hm hp
  | behind hm hp hstands => exact .behind hm hp (h _ _ hstands)

/-- A member that is written in the schema is one, whatever pointers stand
for. -/
theorem Member.of_written (h : ReflTransGen Written s t) :
    ReflTransGen (Member stands) s t :=
  ReflTransGen.mono (fun _ _ hm => .inside hm.1 hm.2) s t h

/-- The steps of a member that is written in place are steps of the merge. -/
theorem mergeSteps_subset (hm : m ∈ s.allOf) (hp : m.pointer = none) :
    m.mergeSteps ⊆ s.mergeSteps := by
  intro step hstep
  rw [mergeSteps_eq s]
  refine List.mem_append_left _ (List.mem_flatMap.2 ⟨m, hm, ?_⟩)
  rw [memberSteps, hp]
  exact hstep

/-- A member that is a pointer is followed. -/
theorem follow_mem_mergeSteps {p : String} (hm : m ∈ s.allOf)
    (hp : m.pointer = some p) : .follow p ∈ s.mergeSteps := by
  rw [mergeSteps_eq s]
  refine List.mem_append_left _ (List.mem_flatMap.2 ⟨m, hm, ?_⟩)
  rw [memberSteps, hp]
  exact List.mem_singleton_self _

namespace Document

variable {d : Document} {budget n : Nat} {stack : List String}
  {steps : List MergeStep}

-- ============================================================= distance

/-- Steps declare a name after following a given number of pointers. -/
inductive DeclaredAt (d : Document) (name : String) :
    Nat → List MergeStep → Prop
  | here {steps : List MergeStep} {properties : Table Schema}
      {required : List String} :
      .declare properties required ∈ steps → name ∈ properties.keys →
      DeclaredAt d name 0 steps
  | behind {steps : List MergeStep} {p : String} {t : Schema} {n : Nat} :
      .follow p ∈ steps → d.Direct p t → DeclaredAt d name n t.mergeSteps →
      DeclaredAt d name (n + 1) steps

/-- More steps declare no less. -/
theorem DeclaredAt.mono {more : List MergeStep} (hsub : steps ⊆ more)
    (h : d.DeclaredAt name n steps) : d.DeclaredAt name n more := by
  cases h with
  | here hmem hname => exact .here (hsub hmem) hname
  | behind hmem hp ht => exact .behind (hsub hmem) hp ht

/-- A merge comes to what the members of members declare, following some number
of pointers. -/
theorem exists_declaredAt_iff :
    (∃ n, d.DeclaredAt name n s.mergeSteps) ↔ Declares d.Direct s name := by
  constructor
  · rintro ⟨n, h⟩
    -- a step that is far from the schema is near to the member that is followed first
    generalize hsteps : s.mergeSteps = steps at h
    induction h generalizing s with
    | here hmem hname =>
        subst hsteps
        obtain ⟨t, ht, heq | ⟨_, _, _, _, heq⟩⟩ := exists_of_mem_mergeSteps hmem
        · cases heq
          exact ⟨t, Member.of_written ht, hname⟩
        · cases heq
    | behind hmem hp _ ih =>
        subst hsteps
        obtain ⟨t, ht, heq | ⟨m, hm, p, hmp, heq⟩⟩ :=
          exists_of_mem_mergeSteps hmem
        · cases heq
        · cases heq
          obtain ⟨u, hu, hname⟩ := ih rfl
          have hmember := (Member.of_written ht).tail (.behind hm hmp hp)
          exact ⟨u, hmember.trans hu, hname⟩
  · rintro ⟨t, ht, hname⟩
    induction ht using ReflTransGen.head_induction_on with
    | refl =>
        have hmem : .declare t.properties t.required ∈ t.mergeSteps := by
          rw [mergeSteps_eq]
          exact List.mem_append_right _ (List.mem_singleton_self _)
        exact ⟨0, .here hmem hname⟩
    | head hmember _ ih =>
        obtain ⟨n, hn⟩ := ih
        cases hmember with
        | inside hm hp => exact ⟨n, hn.mono (mergeSteps_subset hm hp)⟩
        | behind hm hp hdirect =>
            exact ⟨n + 1, .behind (follow_mem_mergeSteps hm hp) hdirect hn⟩

-- ========================================================= declarations

/-- Whatever is declared is declared after following some number of pointers. -/
theorem declaredAt_of_mem {decl : Declaration}
    (hdecl : decl ∈ d.declarations budget stack steps)
    (hname : name ∈ decl.properties.keys) :
    ∃ n, d.DeclaredAt name n steps := by
  refine declarations_induction
    (motive := fun steps => ∃ n, d.DeclaredAt name n steps)
    (fun steps hstep => ⟨0, .here hstep hname⟩) ?_ hdecl
  rintro steps p t hstep ht hpointer ⟨n, hn⟩
  exact ⟨n + 1, .behind hstep ⟨ht, hpointer⟩ hn⟩

/-- A pointer that is not on the stack is followed. -/
theorem declarations_follow {p : String} (hp : d.Direct p t)
    (hstack : p ∉ stack) :
    d.declarations (budget + 1) stack [.follow p]
      = d.declarations budget (p :: stack) t.mergeSteps := by
  have hcontains : stack.contains p = false := by simpa using hstack
  rw [declarations, List.flatMap_singleton]
  dsimp only
  rw [hcontains, hp.1, if_neg Bool.false_ne_true]
  dsimp only
  rw [hp.2]

/-- What a pointer that is not on the stack leads to is declared. -/
theorem declarations_follow_subset {p : String} (hstep : .follow p ∈ steps)
    (hp : d.Direct p t) (hstack : p ∉ stack) :
    d.declarations budget (p :: stack) t.mergeSteps
      ⊆ d.declarations (budget + 1) stack steps := by
  intro decl hdecl
  rw [← declarations_follow hp hstack, declarations,
    List.flatMap_singleton] at hdecl
  exact List.mem_flatMap.2 ⟨_, hstep, hdecl⟩

theorem Direct.unique {p : String} (h : d.Direct p s) (h' : d.Direct p t) :
    s = t :=
  Except.ok.inj (h.1.symm.trans h'.1)

/-- What is declared at some distance has a least one. -/
theorem exists_nearest (h : d.DeclaredAt name n steps) :
    ∃ k, d.DeclaredAt name k steps
      ∧ ∀ j < k, ¬ d.DeclaredAt name j steps := by
  classical
  have hex : ∃ k, d.DeclaredAt name k steps := ⟨n, h⟩
  exact ⟨Nat.find hex, Nat.find_spec hex, fun j => Nat.find_min hex⟩

/-- What is declared at some distance is declared, if the budget is enough for
the way there and nothing on the stack is nearer. Along a shortest way the
distance falls, and so what has been followed is never met again. -/
theorem declares_of_declaredAt (h : d.DeclaredAt name n steps)
    (hbudget : n ≤ budget)
    (hfar : ∀ q ∈ stack, ∀ t, d.Direct q t →
      ∀ k < n, ¬ d.DeclaredAt name k t.mergeSteps) :
    ∃ decl ∈ d.declarations budget stack steps,
      name ∈ decl.properties.keys := by
  induction n using Nat.strong_induction_on
    generalizing budget stack steps with | h n ih => ?_
  cases h with
  | @here _ properties required hmem hname =>
      refine ⟨⟨properties, required⟩, ?_, hname⟩
      cases budget <;>
        exact List.mem_flatMap.2 ⟨_, hmem, List.mem_singleton_self _⟩
  | @behind _ p t n hmem hp ht =>
      have hstack : p ∉ stack := fun hmem =>
        hfar p hmem t hp n (Nat.lt_succ_self n) ht
      obtain ⟨budget, rfl⟩ : ∃ b, budget = b + 1 :=
        Nat.exists_eq_succ_of_ne_zero (Nat.ne_zero_of_lt hbudget)
      -- the way behind the pointer may be shorter than the one at hand, so the nearest
      -- is taken
      obtain ⟨least, hleast, hnearest⟩ := exists_nearest ht
      have hle : least ≤ n := Nat.le_of_not_lt fun hlt => hnearest n hlt ht
      have hless : least < n + 1 := Nat.lt_succ_of_le hle
      have hfar : ∀ q ∈ p :: stack, ∀ u, d.Direct q u →
          ∀ k < least, ¬ d.DeclaredAt name k u.mergeSteps := by
        intro q hq u hu k hk
        rcases List.mem_cons.1 hq with rfl | hq
        · cases hp.unique hu
          exact hnearest k hk
        · exact hfar q hq u hu k (hk.trans hless)
      obtain ⟨decl, hdecl, hname⟩ := ih least hless hleast
        (hle.trans (Nat.le_of_succ_le_succ hbudget)) hfar
      exact ⟨decl, declarations_follow_subset hmem hp hstack hdecl, hname⟩

/-- Merging a schema declares just what it and its members declare. -/
theorem declares_merge_iff :
    (∃ decl ∈ d.merge s, name ∈ decl.properties.keys)
      ↔ Declares d.Direct s name := by
  rw [← exists_declaredAt_iff]
  constructor
  · rintro ⟨decl, hdecl, hname⟩
    exact declaredAt_of_mem hdecl hname
  · rintro ⟨n, hn⟩
    rw [merge_eq d s (Nat.le_max_left _ n)]
    exact declares_of_declaredAt hn (Nat.le_max_right _ _)
      fun q hq => absurd hq List.not_mem_nil

/-- The properties of a merge have the names that are declared. -/
theorem mem_allProperties_merge :
    name ∈ (Declaration.allProperties (d.merge s)).keys
      ↔ Declares d.Direct s name := by
  rw [← declares_merge_iff, Declaration.allProperties, Table.mem_keys_ofList,
    List.map_flatMap, List.mem_flatMap]
  rfl

-- ================================================================ shapes

/-- The shape of a schema that is merged is the record of its properties, each
with its shape. -/
theorem fields_of_merges (hm : s.Merges) {depth : Nat} {shape : Shape}
    (h : d.shapeWithin? depth s = some shape) :
    ∃ fields, shape = .record fields
      ∧ List.Forall₂ (fun e f => ∃ x, d.shapeWithin? depth e.2 = some x
            ∧ f = Schema.fieldOf ((d.merge s).flatMap (·.required)) e x)
          (Declaration.allProperties (d.merge s)) fields := by
  obtain ⟨hp, hmembers, hsingle⟩ := hm
  cases depth with
  | zero => cases h
  | succ depth =>
      -- the schema is merged, since it has several members or properties beside one
      have hmerged :
          d.mergedShape? (d.shapeWithin? depth) s = some shape := by
        rw [shapeWithin?_succ, shapeStep?, hp] at h
        dsimp only at h
        split at h
        · rename_i hnone
          exact absurd hnone hmembers
        · rename_i single hone
          split at h
          · rename_i hempty
            exact absurd hone (hsingle hempty single)
          · exact h
        · exact h
      obtain ⟨fields, rfl, hfields⟩ := Made.fields_of_recordShape? hmerged
      refine ⟨fields, rfl, hfields.imp fun e f hfield => ?_⟩
      obtain ⟨x, hx, hf⟩ := hfield
      exact ⟨x, shapeWithin?_step hx, hf⟩

/-- Its fields have the names of the properties. -/
theorem shape?_of_merges (hm : s.Merges) {shape : Shape}
    (h : d.shape? s = some shape) :
    ∃ fields, shape = .record fields
      ∧ fields.map (·.name) = (Declaration.allProperties (d.merge s)).keys := by
  obtain ⟨fields, rfl, hfields⟩ := fields_of_merges hm h
  exact ⟨fields, rfl, Made.names_of_fields hfields⟩

-- ================================================================= losses

/-- What is declared, where references to references are looked through, is
declared without, or lost. -/
theorem declares_leadsTo_iff :
    Declares d.LeadsTo s name ↔ Declares d.Direct s name ∨ d.Loses s name := by
  constructor
  · rintro ⟨t, ht, hname⟩
    induction ht using ReflTransGen.head_induction_on with
    | refl => exact .inl ⟨t, .refl, hname⟩
    | @head a b hmember hrest ih =>
        -- a step that both sides take changes nothing
        have hkeep (h : Member d.Direct a b) :
            Declares d.Direct a name ∨ d.Loses a name := by
          refine ih.imp (fun hdeclares => hdeclares.member h) ?_
          rintro ⟨u, hu, hloses⟩
          exact ⟨u, .head h hu, hloses⟩
        cases hmember with
        | inside hm hp => exact hkeep (.inside hm hp)
        | @behind m _ p hm hp hleads =>
            cases hleads with
            | here hdirect => exact hkeep (.behind hm hp hdirect)
            | @on _ q r _ hr hq hleads =>
                exact .inr ⟨a, .refl, m, hm, p, hp, r, q, hr, hq, b, hleads,
                  t, hrest, hname⟩
  · have hmore (p : String) (t : Schema) : d.Direct p t → d.LeadsTo p t := .here
    rintro (⟨t, ht, hname⟩ | ⟨t, ht, m, hm, p, hp, r, q, hr, hq, u, hleads, v,
      hv, hname⟩)
    · exact ⟨t, Member.mono hmore ht, hname⟩
    · have hmember : Member d.LeadsTo t u := .behind hm hp (.on hr hq hleads)
      exact ⟨v, ((Member.mono hmore ht).tail hmember).trans hv, hname⟩

/-- Nothing is lost where no component is a reference. -/
theorem not_loses (h : ∀ e ∈ d.schemas, e.2.pointer = none) :
    ¬ d.Loses s name := by
  rintro ⟨t, -, m, -, p, -, r, q, hr, hq, -⟩
  obtain ⟨a, ha⟩ := resolveSchema_eq_ok_iff.1 hr
  have hnone : r.pointer = none := h (a.name, r) ha.holds
  rw [hnone] at hq
  cases hq

-- =============================================================== mapping

/-- What generation comes to has been seen by the reference check. -/
theorem ComesTo.sees (h : d.ComesTo s) : d.Sees s := by
  obtain ⟨root, hroot, hasks⟩ := h
  induction hasks with
  | refl => exact hroot.covered.seen
  | tail _ hask ih => exact (hereditary_sees d).parts ih _ hask.2

/-- Where mapping ends, it ends on all to which generation comes. -/
theorem ComesTo.acc (h : d.ComesTo s) (hf : d.MapsFinitely) :
    Acc (flip d.Asks) s := by
  obtain ⟨root, hroot, hasks⟩ := h
  induction hasks with
  | refl =>
      obtain ⟨depth, hdepth⟩ := hf root hroot
      exact acc_of_shapeWithin? hdepth
  | tail _ hask ih => exact ih.inv hask

/-- The members of members have been seen as well, and are no pointers. -/
theorem Sees.member (hs : d.Sees s) (hp : s.pointer = none)
    (ht : ReflTransGen (Member d.Direct) s t) :
    d.Sees t ∧ t.pointer = none := by
  induction ht with
  | refl => exact ⟨hs, hp⟩
  | tail _ hmember ih =>
      obtain ⟨hsees, hnone⟩ := ih
      cases hmember with
      | inside hm hp =>
          refine ⟨(hereditary_sees d).inside _ hsees hnone _ ?_, hp⟩
          simp [Schema.children, hm]
      | behind hm hp hdirect =>
          obtain ⟨a, ha⟩ := resolveSchema_eq_ok_iff.1 hdirect.1
          exact ⟨(hereditary_sees d).component (a.name, _) ha.holds, hdirect.2⟩

-- ========================================================= main result

/-- Generation that ends maps each schema to which it comes. If this is merged
from members, then every pointer at which the merge arrives names a component,
and the schema has a shape. The shape of any schema that is merged is a record.
Its fields have different names, in order, and these are just the ones that the
schema declares and its members do, a pointer standing for the component that it
names. What the members declare and the record has not stands behind components
that are references; so nothing is lost where no component is one. -/
theorem merge_takes_in {d : Document} {p : Prepared} (h : d.prepare = .ok p)
    (hf : p.document.MapsFinitely) {s : Schema} (hs : s ∈ p.document.nodes)
    (hm : s.Merges) :
    (p.document.ComesTo s →
      (∃ shape, p.document.shape? s = some shape)
        ∧ ∀ t, ReflTransGen (Member p.document.Direct) s t →
          ∀ m ∈ t.allOf, ∀ pointer, m.pointer = some pointer →
            ∃ u, p.document.resolveSchema pointer = .ok u)
      ∧ ∀ shape, p.document.shape? s = some shape →
        ∃ fields, shape = .record fields
          ∧ (fields.map (·.name)).Pairwise (· < ·)
          ∧ (∀ name, name ∈ fields.map (·.name)
              ↔ Declares p.document.Direct s name)
          ∧ (∀ name, Declares p.document.LeadsTo s name
              ↔ name ∈ fields.map (·.name) ∨ p.document.Loses s name)
          ∧ ((∀ e ∈ p.document.schemas, e.2.pointer = none) →
              ∀ name, ¬ p.document.Loses s name) := by
  have hd := checked_of_prepare h
  refine ⟨fun hcomes => ⟨?_, ?_⟩, fun shape hshape => ?_⟩
  · exact Option.isSome_iff_exists.1
      (shape?_isSome_of_acc (hcomes.acc hf) hs)
  · intro t ht m hmem pointer hpointer
    obtain ⟨hsees, hnone⟩ := Sees.member hcomes.sees hm.1 ht
    -- members of what generation comes to are among what it sees, so their references
    -- resolve
    have hmember : p.document.Sees m :=
      (hereditary_sees p.document).inside t hsees hnone m
        (by simp [Schema.children, hmem])
    exact hd.resolvesSchema hmember hpointer
  · obtain ⟨fields, rfl, hnames⟩ := shape?_of_merges hm hshape
    refine ⟨fields, rfl, ?_, ?_, ?_, fun h name => not_loses h⟩
    · rw [hnames]
      exact Table.sorted_iff_keys.1 (Table.sorted_ofList _)
    · intro name
      rw [hnames, mem_allProperties_merge]
    · intro name
      rw [hnames, mem_allProperties_merge, declares_leadsTo_iff]

-- ================================================================= a litter

/-- What every animal has. -/
def animalSchema : Schema where
  properties := [("id", .ofType "integer")]

/-- The schema of a puppy. It is an animal, once more a puppy, and has a name and
an age. -/
def puppySchema : Schema where
  allOf := [.ofPointer "#/components/schemas/Animal",
    .ofPointer "#/components/schemas/Puppy",
    { properties := [("name", .ofType "string")] }]
  properties := [("age", .ofType "integer")]

def litter : Document where
  openapi := "3.1.0"
  info := { title := "Litter", version := "1" }
  components := some
    { schemas := [("Animal", animalSchema), ("Puppy", puppySchema)] }

/-- The names of the fields of a record. -/
def fieldNames : Shape → List String
  | .record fields => fields.map (·.name)
  | _ => []

theorem merges_puppySchema : puppySchema.Merges :=
  ⟨rfl, List.cons_ne_nil _ _, fun _ _ => by simp [puppySchema]⟩

/-- A puppy takes in what an animal declares, although it is also one of its own
members. -/
theorem merge_takes_in_puppy : ∃ p fields, litter.prepare = .ok p
    ∧ p.document.MapsFinitely ∧ puppySchema ∈ p.document.nodes
    ∧ puppySchema.Merges
    ∧ p.document.shape? puppySchema = some (.record fields)
    ∧ fields.map (·.name) = ["age", "id", "name"]
    ∧ ∀ name, Declares p.document.LeadsTo puppySchema name
      ↔ name ∈ ["age", "id", "name"] := by
  obtain ⟨p, hp, hdocument, hfinite⟩ :=
    prepared_of_shapes (d := litter) 3 (by decide +kernel) (by decide +kernel)
  have hschemas : p.document.schemas
      = [("Animal", animalSchema), ("Puppy", puppySchema)] := by
    rw [hdocument]
    rfl
  have hcomponent : ("Puppy", puppySchema) ∈ p.document.schemas := by
    rw [hschemas]
    exact List.mem_cons_of_mem _ (List.mem_singleton_self _)
  have hnodes : puppySchema ∈ p.document.nodes :=
    (hereditary_nodes p.document).component _ hcomponent
  obtain ⟨hmapped, hrecord⟩ := merge_takes_in hp hfinite hnodes merges_puppySchema
  obtain ⟨⟨shape, hshape⟩, -⟩ := hmapped ⟨_, .component hcomponent, .refl⟩
  obtain ⟨fields, rfl, -, -, hiff, hnone⟩ := hrecord shape hshape
  -- the record is evaluated for its names
  have hnames : (litter.canonical.1.shape? puppySchema).map fieldNames
      = some ["age", "id", "name"] := by
    decide +kernel
  rw [← hdocument, hshape] at hnames
  have hfields : fields.map (·.name) = ["age", "id", "name"] :=
    Option.some.inj hnames
  have hdirect : ∀ e ∈ p.document.schemas, e.2.pointer = none := by
    rw [hschemas]
    simp [animalSchema, puppySchema]
  refine ⟨p, fields, hp, hfinite, hnodes, merges_puppySchema, hshape, hfields,
    fun name => ?_⟩
  rw [hiff, hfields, or_iff_left (hnone hdirect name)]

-- ============================================================ a lost name

/-- The schema of a dog. It is a pet, and has a name. -/
def dogSchema : Schema where
  allOf := [.ofPointer "#/components/schemas/Pet",
    { properties := [("name", .ofType "string")] }]

/-- A document in which a dog is a pet, and a pet is nothing but an animal. -/
def pound : Document where
  openapi := "3.1.0"
  info := { title := "Pound", version := "1" }
  components := some
    { schemas :=
      [("Animal", animalSchema), ("Dog", dogSchema),
       ("Pet", .ofPointer "#/components/schemas/Animal")] }

/-- A pointer to a component schema resolves to it. -/
theorem resolveSchema_of_get? {p : String} (key : String)
    (hparse : Pointer.parse p = .ok ⟨.schema, key⟩)
    (hget : Table.get? key d.schemas = some s) : d.resolveSchema p = .ok s := by
  have hlookUp : d.lookUp p = .ok (⟨.schema, key⟩, .component (.schema s)) := by
    have hslot : d.shared.slot? ⟨.schema, key⟩
        = some (.component (.schema s)) := by
      rw [schemas] at hget
      simp [Components.slot?, hget]
    simp [lookUp, hparse, hslot, bind, Except.bind, pure, Except.pure]
  exact resolveSchema_eq_ok_iff.2 ⟨_, [], .here hlookUp⟩

/-- An animal has a number, and a dog has none: the pet in between is passed
over. -/
theorem merge_loses : ∃ p fields, pound.prepare = .ok p
    ∧ p.document.MapsFinitely ∧ ("Dog", dogSchema) ∈ p.document.schemas
    ∧ dogSchema.Merges
    ∧ p.document.shape? dogSchema = some (.record fields)
    ∧ Declares p.document.LeadsTo dogSchema "id"
    ∧ "id" ∉ fields.map (·.name) := by
  obtain ⟨p, hp, hdocument, hfinite⟩ :=
    prepared_of_shapes (d := pound) 3 (by decide +kernel) (by decide +kernel)
  have hcanonical : p.document = pound := hdocument
  have hcomponent : ("Dog", dogSchema) ∈ pound.schemas :=
    List.mem_cons_of_mem _ (List.mem_cons_self ..)
  have hmerges : dogSchema.Merges :=
    ⟨rfl, List.cons_ne_nil _ _, fun _ _ => by simp [dogSchema]⟩
  obtain ⟨shape, hshape⟩ : ∃ shape, p.document.shape? dogSchema = some shape :=
    hfinite.shape? (.component (hcanonical ▸ hcomponent))
  obtain ⟨fields, rfl, -⟩ := shape?_of_merges hmerges hshape
  rw [hcanonical] at hshape hfinite
  have hnames : (pound.shape? dogSchema).map fieldNames = some ["name"] := by
    decide +kernel
  rw [hshape] at hnames
  have hfields : fields.map (·.name) = ["name"] := Option.some.inj hnames
  -- the pet stands for an animal, so the dog's member leads to it in two steps
  have hpet : pound.resolveSchema "#/components/schemas/Pet"
      = .ok (.ofPointer "#/components/schemas/Animal") :=
    resolveSchema_of_get? "Pet" (by decide +kernel) rfl
  have hanimal : pound.resolveSchema "#/components/schemas/Animal"
      = .ok animalSchema :=
    resolveSchema_of_get? "Animal" (by decide +kernel) rfl
  have hleads : pound.LeadsTo "#/components/schemas/Pet" animalSchema :=
    .on hpet rfl (.here ⟨hanimal, rfl⟩)
  have hmember : Member pound.LeadsTo dogSchema animalSchema :=
    .behind (List.mem_cons_self ..) rfl hleads
  have hdeclares : Declares pound.LeadsTo dogSchema "id" :=
    ⟨animalSchema, .single hmember, List.mem_singleton_self _⟩
  refine ⟨p, fields, hp, ?_⟩
  rw [hcanonical, hfields]
  exact ⟨hfinite, hcomponent, hmerges, hshape, hdeclares, by decide⟩

end Document

end ApiForge
