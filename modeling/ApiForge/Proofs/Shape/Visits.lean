import ApiForge.Proofs.Shape.Members
import ApiForge.Proofs.Text.Utf8
/-!
In which order a merge takes in what its members declare.

A merge visits schemas depth first, and what it comes to later counts. `Visits`
says which schemas are visited, without a budget and without the list of steps
that a merge is made from: the members in order, each behind its own members, and
behind a pointer the component that it names, unless the pointer is being
followed already. A schema can be visited several times, by several ways.

# The walk

Which schemas are visited is determined (`Visits.unique`), and a merge declares
what they declare, in this order (`exists_visits`). The induction is on the
pointers that may still be followed, of which there are fewer inside each that is
followed, and within that on the schemas that stand in one another.

# Main result

A property of a merged record is that of the last visited schema that declares
one of its name, and the record requires what any of them requires
(`merge_precedence`).
-/

namespace ApiForge

open Hereditary (memberSteps mergeSteps_eq)

namespace Document

-- ================================================ statement vocabulary

/-- The schemas that are visited for a list of members, in order. `path` holds
the pointers that are being followed. -/
inductive Visits (d : Document) :
    List String → List Schema → List Schema → Prop
  | nil {path : List String} : Visits d path [] []
  /-- A member that is written in place comes behind its own members. -/
  | inside {path : List String} {m : Schema} {rest own others : List Schema} :
      m.pointer = none → Visits d path m.allOf own → Visits d path rest others →
      Visits d path (m :: rest) (own ++ m :: others)
  /-- Behind a pointer stands the component that it names. -/
  | behind {path : List String} {m t : Schema} {p : String}
      {rest own others : List Schema} :
      m.pointer = some p → p ∉ path → d.Direct p t →
      Visits d (p :: path) t.allOf own → Visits d path rest others →
      Visits d path (m :: rest) (own ++ t :: others)
  /-- A pointer that is being followed, and one that names no component which is
  no reference, are passed over. -/
  | passed {path : List String} {m : Schema} {p : String}
      {rest others : List Schema} :
      m.pointer = some p → p ∈ path ∨ (∀ t, ¬ d.Direct p t) →
      Visits d path rest others → Visits d path (m :: rest) others

/-- A property is declared under a name by the last schema of a list that declares
one under this name. -/
def LastDeclares (visited : List Schema) (name : String) (property : Schema) :
    Prop :=
  ∃ front t back, visited = front ++ t :: back
    ∧ (name, property) ∈ t.properties
    ∧ ∀ u ∈ back, name ∉ Table.keys u.properties

-- ============================================================ the walk

variable {d : Document} {s t m : Schema} {p : String} {budget : Nat}
  {path pool : List String} {members visited other : List Schema}

/-- There is one order in which schemas are visited. -/
theorem Visits.unique (h : d.Visits path members visited)
    (h' : d.Visits path members other) : visited = other := by
  induction h generalizing other with
  | nil => cases h'; rfl
  | inside hp _ _ ihown ihothers =>
      -- the pointer of the first member, and the path, decide by which rule it is
      -- visited
      cases h' with
      | inside _ hown hothers => rw [ihown hown, ihothers hothers]
      | behind hp' => rw [hp] at hp'; cases hp'
      | passed hp' => rw [hp] at hp'; cases hp'
  | behind hp hpath hdirect _ _ ihown ihothers =>
      cases h' with
      | inside hp' => rw [hp] at hp'; cases hp'
      | behind hp' _ hdirect' hown hothers =>
          rw [hp] at hp'
          cases hp'
          cases hdirect.unique hdirect'
          rw [ihown hown, ihothers hothers]
      | passed hp' hpass =>
          rw [hp] at hp'
          cases hp'
          exact (hpass.elim hpath fun hnone => hnone _ hdirect).elim
  | passed hp hpass _ ihothers =>
      cases h' with
      | inside hp' => rw [hp] at hp'; cases hp'
      | behind hp' hpath hdirect =>
          rw [hp] at hp'
          cases hp'
          exact (hpass.elim hpath fun hnone => hnone _ hdirect).elim
      | passed _ _ hothers => exact ihothers hothers

/-- What a schema declares itself. -/
def declared (s : Schema) : Declaration :=
  ⟨s.properties, s.required⟩

theorem declarations_append (steps steps' : List MergeStep) :
    d.declarations budget path (steps ++ steps')
      = d.declarations budget path steps
        ++ d.declarations budget path steps' := by
  cases budget <;> exact List.flatMap_append

/-- Merging a schema declares what its members declare, and then what it declares
itself. -/
theorem declarations_mergeSteps (s : Schema) :
    d.declarations budget path s.mergeSteps
      = d.declarations budget path (s.allOf.flatMap memberSteps)
        ++ [declared s] := by
  rw [mergeSteps_eq, declarations_append]
  cases budget <;> rfl

/-- A pointer that is passed over declares nothing. -/
theorem declarations_pass (h : p ∈ path ∨ ∀ t, ¬ d.Direct p t) :
    d.declarations budget path [.follow p] = [] := by
  cases budget with
  | zero => rfl
  | succ budget =>
      rw [declarations, List.flatMap_singleton]
      dsimp only
      split
      · rfl
      · rename_i hcontains
        have hnone := h.resolve_left fun hmem =>
          hcontains (List.contains_iff_mem.2 hmem)
        split
        · rename_i target htarget
          split
          · rfl
          · rename_i hpointer
            exact absurd ⟨htarget, hpointer⟩ (hnone target)
        · rfl

/-- Schemas are visited for a list of members, and they declare what merging the
members declares. -/
def Walked (d : Document) (budget : Nat) (path : List String)
    (members : List Schema) : Prop :=
  ∃ visited, d.Visits path members visited
    ∧ d.declarations budget path (members.flatMap memberSteps)
      = visited.map declared

/-- A list of members is walked if each of them is: one that is written in place
by its own members, and one that is a pointer by those of its component. -/
theorem Walked.list
    (hinside : ∀ m ∈ members, m.pointer = none → d.Walked budget path m.allOf)
    (hbehind : ∀ m ∈ members, ∀ p, m.pointer = some p → p ∉ path →
      ∀ t, d.Direct p t → ∃ less, budget = less + 1
        ∧ d.Walked less (p :: path) t.allOf) :
    d.Walked budget path members := by
  induction members with
  | nil =>
      refine ⟨[], .nil, ?_⟩
      cases budget <;> rfl
  | cons m rest ih =>
      obtain ⟨others, hothers, hrest⟩ :=
        ih (fun m hm => hinside m (List.mem_cons_of_mem _ hm))
          fun m hm => hbehind m (List.mem_cons_of_mem _ hm)
      have hm := List.mem_cons_self (a := m) (l := rest)
      unfold Walked
      rw [List.flatMap_cons, declarations_append, hrest]
      -- the first member stands in place, or is a pointer that is passed or followed
      cases hp : m.pointer with
      | none =>
          obtain ⟨own, hown, hdeclares⟩ := hinside m hm hp
          refine ⟨own ++ m :: others, .inside hp hown hothers, ?_⟩
          rw [memberSteps, hp]
          dsimp only
          rw [declarations_mergeSteps, hdeclares]
          simp
      | some p =>
          rw [memberSteps, hp]
          dsimp only
          by_cases hpass : p ∈ path ∨ ∀ t, ¬ d.Direct p t
          · refine ⟨others, .passed hp hpass hothers, ?_⟩
            rw [declarations_pass hpass, List.nil_append]
          · obtain ⟨hpath, hdirect⟩ := not_or.1 hpass
            obtain ⟨t, ht⟩ := not_forall_not.1 hdirect
            obtain ⟨less, rfl, own, hown, hdeclares⟩ :=
              hbehind m hm p hp hpath t ht
            refine ⟨own ++ t :: others, .behind hp hpath ht hown hothers, ?_⟩
            rw [declarations_follow ht hpath, declarations_mergeSteps, hdeclares]
            simp

/-- Members are walked if the budget is enough for the pointers that are not being
followed. -/
theorem exists_visits
    (hpool : ∀ e ∈ d.schemas, FollowsIn pool e.2.mergeSteps)
    (hs : FollowsIn pool s.mergeSteps) (hpath : path.Nodup)
    (hsub : path ⊆ pool) (henough : pool.length ≤ budget + path.length) :
    d.Walked budget path s.allOf := by
  induction budget generalizing s path with
  | zero =>
      induction s using Schema.induct with
      | step s ih =>
          refine Walked.list (fun m hm hp => ?_) fun m hm p hp hfresh => ?_
          · exact ih m (by simp [Schema.children, hm])
              fun q hq => hs q (mergeSteps_subset hm hp hq)
          · -- all pointers are being followed
            have hfull := contains_of_full hpath hsub (by simpa using henough)
              (hs p (follow_mem_mergeSteps hm hp))
            exact absurd (List.contains_iff_mem.1 hfull) hfresh
  | succ budget ihbudget =>
      induction s using Schema.induct with
      | step s ih =>
          refine Walked.list (fun m hm hp => ?_)
            fun m hm p hp hfresh t ht => ⟨budget, rfl, ?_⟩
          · exact ih m (by simp [Schema.children, hm])
              fun q hq => hs q (mergeSteps_subset hm hp hq)
          · obtain ⟨a, ha⟩ := resolveSchema_eq_ok_iff.1 ht.1
            refine ihbudget (hpool (a.name, t) ha.holds)
              (List.nodup_cons.2 ⟨hfresh, hpath⟩) ?_ ?_
            · exact List.cons_subset.2
                ⟨hs p (follow_mem_mergeSteps hm hp), hsub⟩
            · rw [List.length_cons]
              omega

/-- Merging a schema declares what the schemas that are visited declare, itself
last. -/
theorem exists_visits_merge (d : Document) (s : Schema) :
    ∃ visited, d.Visits [] s.allOf visited
      ∧ d.merge s = (visited ++ [s]).map declared := by
  obtain ⟨visited, hvisited, hdeclares⟩ :=
    exists_visits (d.followsIn_mergePointers_of_mem s)
      (d.followsIn_mergePointers s) List.nodup_nil (List.nil_subset _)
      (Nat.le_add_right _ _)
  refine ⟨visited, hvisited, ?_⟩
  rw [merge, declarations_mergeSteps, hdeclares, List.map_append]
  rfl

-- ========================================================== declarations

/-- A schema declares last what those behind it do not. -/
theorem lastDeclares_cons {name : String} {property : Schema} :
    LastDeclares (t :: visited) name property
      ↔ LastDeclares visited name property
        ∨ (name, property) ∈ t.properties
          ∧ ∀ u ∈ visited, name ∉ Table.keys u.properties := by
  constructor
  · rintro ⟨front, u, back, hsplit, hu, hback⟩
    cases front with
    | nil =>
        obtain ⟨rfl, rfl⟩ := List.cons.inj hsplit
        exact .inr ⟨hu, hback⟩
    | cons v front =>
        obtain ⟨-, rfl⟩ := List.cons.inj hsplit
        exact .inl ⟨front, u, back, rfl, hu, hback⟩
  · rintro (⟨front, u, back, rfl, hu⟩ | ht)
    · exact ⟨t :: front, u, back, rfl, hu⟩
    · exact ⟨[], t, visited, rfl, ht⟩

/-- The last binding of a name is that of the last schema that declares one. -/
theorem lastDeclares_of_bindings {name : String} {property : Schema}
    {before after : List (String × Schema)}
    (h : visited.flatMap (·.properties) = before ++ (name, property) :: after)
    (hafter : name ∉ after.map (·.1)) :
    LastDeclares visited name property := by
  induction visited generalizing before with
  | nil => simp at h
  | cons t rest ih =>
      rw [List.flatMap_cons] at h
      rw [lastDeclares_cons]
      -- the binding stands in the first schema, or behind it
      rcases List.append_eq_append_iff.1 h with
        ⟨inner, -, hinner⟩ | ⟨inner, hown, hinner⟩
      · exact .inl (ih hinner)
      · cases inner with
        | nil =>
            have hrest : rest.flatMap (·.properties)
                = [] ++ (name, property) :: after := hinner.symm
            exact .inl (ih hrest)
        | cons e inner =>
            obtain ⟨rfl, rfl⟩ := List.cons.inj hinner
            refine .inr ⟨?_, fun u hu hname => hafter ?_⟩
            · rw [hown]
              exact List.mem_append_right _ (List.mem_cons_self ..)
            · obtain ⟨e, he, rfl⟩ := List.mem_map.1 hname
              exact List.mem_map_of_mem (List.mem_append_right _
                (List.mem_flatMap.2 ⟨u, hu, he⟩))

/-- The property that counts is one of the schema behind which none declares the
name. -/
theorem LastDeclares.mem {front back : List Schema} {name : String}
    {property : Schema} (h : LastDeclares (front ++ t :: back) name property)
    (ht : name ∈ Table.keys t.properties)
    (hback : ∀ u ∈ back, name ∉ Table.keys u.properties) :
    (name, property) ∈ t.properties := by
  induction front with
  | nil =>
      refine (lastDeclares_cons.1 h).elim (fun hlater => ?_) And.left
      obtain ⟨before, u, behind, rfl, hu, -⟩ := hlater
      exact absurd (List.mem_map_of_mem hu)
        (hback u (List.mem_append_right _ (List.mem_cons_self ..)))
  | cons v front ih =>
      refine (lastDeclares_cons.1 h).elim ih fun hfirst => ?_
      exact absurd ht
        (hfirst.2 t (List.mem_append_right _ (List.mem_cons_self ..)))

/-- The visited schemas declare their properties, and the last binding of a name
counts. -/
theorem properties_declared (visited : List Schema) :
    Declaration.allProperties (visited.map declared)
      = Table.ofList (visited.flatMap (·.properties)) := by
  rw [Declaration.allProperties, List.flatMap_map]
  rfl

/-- The visited schemas require what each of them does. -/
theorem required_declared (visited : List Schema) :
    (visited.map declared).flatMap (·.required)
      = visited.flatMap (·.required) := by
  rw [List.flatMap_map]
  rfl

-- ========================================================= main result

/-- A schema whose merge comes to a shape, however deep, is a record. There is one
list of schemas that are visited for its members, and it comes itself behind
them. The fields of the record have the names that any of these declares, each
once, in the order of their octets. Each field has the shape and the description
of the property that the last of them to declare one of its name declares; and it
is required just when any of them, declaring the property or not, requires it. -/
theorem merge_precedence {d : Document} {s : Schema} (hm : s.Merges)
    {depth : Nat} {shape : Shape} (h : d.shapeWithin? depth s = some shape) :
    ∃ members, (∀ other, d.Visits [] s.allOf other ↔ other = members)
      ∧ ∃ fields, shape = .record fields
        ∧ (fields.map fun f => Text.Utf8.bytes f.name).Pairwise (· < ·)
        ∧ (∀ name, name ∈ fields.map (·.name)
            ↔ ∃ t ∈ members ++ [s], name ∈ Table.keys t.properties)
        ∧ ∀ f ∈ fields,
            (∃ property, LastDeclares (members ++ [s]) f.name property
              ∧ d.shapeWithin? depth property = some f.shape
              ∧ f.description = property.ownDescription)
            ∧ (f.required = true ↔ ∃ t ∈ members ++ [s], f.name ∈ t.required) := by
  obtain ⟨members, hvisits, hmerge⟩ := exists_visits_merge d s
  obtain ⟨fields, rfl, hfields⟩ := fields_of_merges hm h
  rw [hmerge, properties_declared, required_declared] at hfields
  -- the fields are those of the table of all properties, sorted by name
  have hnames := Made.names_of_fields hfields
  refine ⟨members, fun other => ⟨fun hother => hother.unique hvisits, ?_⟩,
    fields, rfl, ?_, fun name => ?_, fun f hf => ?_⟩
  · rintro rfl
    exact hvisits
  · have hsorted := Table.sorted_iff_keys.1 (Table.sorted_ofList
      ((members ++ [s]).flatMap (·.properties)))
    rw [← hnames, List.pairwise_map] at hsorted
    exact List.pairwise_map.2 (hsorted.imp Text.Utf8.bytes_lt)
  · rw [hnames, Table.mem_keys_ofList, List.map_flatMap, List.mem_flatMap]
    rfl
  · obtain ⟨⟨name, property⟩, he, x, hx, rfl⟩ :=
      exists_of_forall₂ hfields.flip f hf
    obtain ⟨before, after, hsplit, hafter⟩ := Table.mem_ofList_iff.1 he
    refine ⟨⟨property, lastDeclares_of_bindings hsplit hafter, hx, rfl⟩, ?_⟩
    show List.contains _ name = true ↔ ∃ t ∈ members ++ [s], name ∈ t.required
    rw [List.contains_iff_mem, List.mem_flatMap]

-- =============================================================== a herd

/-- The schema of a beast. It has a number, and is to have a name. -/
def beastSchema : Schema where
  properties := [("id", .ofType "integer")]
  required := ["name"]

/-- The schema of a cow. It is a beast, has a text where this has a number, and
is also a calf. -/
def cowSchema : Schema where
  allOf := [.ofPointer "#/components/schemas/Beast",
    .ofPointer "#/components/schemas/Calf"]
  properties := [("id", .ofType "string"), ("name", .ofType "string")]

/-- The schema of a calf. It is a cow, and a beast once more. -/
def calfSchema : Schema where
  allOf := [.ofPointer "#/components/schemas/Cow",
    .ofPointer "#/components/schemas/Beast"]

def herd : Document where
  openapi := "3.1.0"
  info := { title := "Herd", version := "1" }
  components := some
    { schemas := [("Beast", beastSchema), ("Calf", calfSchema),
        ("Cow", cowSchema)] }

/-- A cow is a calf as well, so that a calf is visited for itself, and there the
cow is passed over. -/
theorem visits_calfSchema : herd.Visits [] calfSchema.allOf
    [beastSchema, beastSchema, calfSchema, cowSchema, beastSchema] := by
  have hbeast : herd.Direct "#/components/schemas/Beast" beastSchema :=
    ⟨resolveSchema_of_get? "Beast" (by decide +kernel) rfl, rfl⟩
  have hcalf : herd.Direct "#/components/schemas/Calf" calfSchema :=
    ⟨resolveSchema_of_get? "Calf" (by decide +kernel) rfl, rfl⟩
  have hcow : herd.Direct "#/components/schemas/Cow" cowSchema :=
    ⟨resolveSchema_of_get? "Cow" (by decide +kernel) rfl, rfl⟩
  have hinner : herd.Visits
      ["#/components/schemas/Calf", "#/components/schemas/Cow"]
      calfSchema.allOf [beastSchema] :=
    .passed rfl (.inl (by decide)) (.behind rfl (by decide) hbeast .nil .nil)
  have hown : herd.Visits ["#/components/schemas/Cow"] cowSchema.allOf
      [beastSchema, beastSchema, calfSchema] :=
    .behind rfl (by decide) hbeast .nil (.behind rfl (by decide) hcalf hinner .nil)
  exact .behind rfl (by decide) hcow hown (.behind rfl (by decide) hbeast .nil .nil)

/-- A calf has the number of a beast, though a cow has a text in its place, as
it is a beast after it is a cow; and its name, which the cow declares, is
required by the beast. -/
theorem merge_precedence_calf : calfSchema.Merges
    ∧ ∃ fields, herd.shapeWithin? 2 calfSchema = some (.record fields)
      ∧ (∃ f ∈ fields, f.name = "id"
          ∧ herd.shapeWithin? 2 (.ofType "integer") = some f.shape)
      ∧ ∃ f ∈ fields, f.name = "name" ∧ f.required = true := by
  have hmerges : calfSchema.Merges :=
    ⟨rfl, List.cons_ne_nil _ _, fun _ _ => by simp [calfSchema]⟩
  have hsome : (herd.shapeWithin? 2 calfSchema).isSome = true := by
    decide +kernel
  obtain ⟨shape, hshape⟩ := Option.isSome_iff_exists.1 hsome
  obtain ⟨members, hvisits, fields, rfl, -, hnames, hfields⟩ :=
    merge_precedence hmerges hshape
  cases (hvisits _).1 visits_calfSchema
  obtain ⟨number, hnumber, hid⟩ :=
    List.mem_map.1 ((hnames "id").2 ⟨beastSchema, by simp, by decide⟩)
  obtain ⟨name, hname, hnamed⟩ :=
    List.mem_map.1 ((hnames "name").2 ⟨cowSchema, by simp, by decide⟩)
  refine ⟨hmerges, fields, hshape, ⟨number, hnumber, hid, ?_⟩,
    name, hname, hnamed, ?_⟩
  · obtain ⟨⟨property, hlast, hproperty, -⟩, -⟩ := hfields number hnumber
    rw [hid] at hlast
    -- the beast is visited again behind the cow
    have hsplit : LastDeclares
        ([beastSchema, beastSchema, calfSchema, cowSchema]
          ++ beastSchema :: [calfSchema]) "id" property := hlast
    cases List.mem_singleton.1 (hsplit.mem (by decide) (by decide))
    exact hproperty
  · refine (hfields name hname).2.2 ⟨beastSchema, by simp, ?_⟩
    rw [hnamed]
    exact List.mem_singleton_self _

end Document

end ApiForge
