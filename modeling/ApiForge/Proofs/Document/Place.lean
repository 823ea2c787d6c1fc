import ApiForge.Proofs.Distinct
import ApiForge.Proofs.Document.Node
import ApiForge.Reference.Check
import Mathlib.Data.List.Basic
/-!
The places of a document at which references stand.

# Places

`Site.members` lists what stands directly in a part of a document, in the order
of walking; nothing stands in a pointer. A place is the way from the document
to a part, as the numbers of the members that it goes through (`Stands`). So
two parts have different places even where they are equal, and the places are
in walking order just when they are in lexicographic order.

# Listing

`Document.occurrences` lists references without places. Every part lists its
own reference and then what its members list (`occurrences_eq`), and this alone
says that the listing has each place with a reference once, in order
(`Enumerates.step`). The induction is over parts, outer to inner
(`Site.induct`). So what is said of all, of the number or of the first of the
listed references can be said by places.
-/

namespace ApiForge

-- ================================================ statement vocabulary

/-- A part of a document in which references may stand, or that may be one. -/
inductive Part where
  | document (d : Document)
  | path (p : PathItem)
  | operation (o : Operation)
  | parameter (p : Referable Parameter)
  | requestBody (b : Referable RequestBody)
  | response (r : Referable Response)
  | schema (s : Schema)

/-- The pointer that stands for a part, with the kind that is asked for
there. -/
def Part.reference? : Part → Option (EntryKind × String)
  | parameter (.pointer target) => some (.parameter, target)
  | requestBody (.pointer target) => some (.requestBody, target)
  | response (.pointer target) => some (.response, target)
  | schema s => s.pointer.map (.schema, ·)
  | _ => none

/-- A part with its location, as error messages give it. -/
structure Site where
  location : String
  part : Part

namespace Site

/-- The reference that a part is. -/
def occurrence? (s : Site) : Option Occurrence :=
  s.part.reference?.map fun (kind, pointer) => ⟨s.location, kind, pointer⟩

/-- The parameters of a path or an operation. -/
def ofParameters (location : String) (ps : List (Referable Parameter)) :
    List Site :=
  ps.zipIdx.map fun (p, i) =>
    ⟨location ++ " parameter #" ++ toString i, .parameter p⟩

/-- The schemas of bodies; all have the location of the table. -/
def ofContent (location : String) (c : Content) : List Site :=
  c.flatMap fun (_, m) => m.schema.toList.map fun s => ⟨location, .schema s⟩

/-- The schemas of a list that a keyword has. -/
def ofMembers (location : String) (l : List Schema) : List Site :=
  l.zipIdx.map fun (s, i) =>
    ⟨location ++ "[" ++ toString i ++ "]", .schema s⟩

/-- What stands directly in a part. -/
def members : Site → List Site
  | ⟨_, .document d⟩ =>
    d.shared.schemas.map (fun (name, s) =>
        ⟨"components.schemas." ++ name, .schema s⟩)
      ++ d.shared.responses.map (fun (name, r) =>
        ⟨"components.responses." ++ name, .response r⟩)
      ++ d.shared.parameters.map (fun (name, p) =>
        ⟨"components.parameters." ++ name, .parameter p⟩)
      ++ d.shared.requestBodies.map (fun (name, b) =>
        ⟨"components.requestBodies." ++ name, .requestBody b⟩)
      ++ d.pathTable.map (fun (path, item) => ⟨path, .path item⟩)
      ++ d.webhooks.map (fun (name, item) => ⟨"webhook " ++ name, .path item⟩)
  | ⟨location, .path p⟩ =>
    ofParameters location p.parameters
      ++ p.operations.map (fun (verb, o) =>
        ⟨verb.name ++ " " ++ location, .operation o⟩)
  | ⟨location, .operation o⟩ =>
    ofParameters location o.parameters
      ++ o.body.toList.map (fun b =>
        ⟨location ++ " request body", .requestBody b⟩)
      ++ o.responses.map (fun (status, r) =>
        ⟨location ++ " response " ++ status, .response r⟩)
  | ⟨location, .parameter (.inline p)⟩ =>
    p.schema.toList.map fun s => ⟨location, .schema s⟩
  | ⟨location, .requestBody (.inline b)⟩ => ofContent location b.content
  | ⟨location, .response (.inline r)⟩ => ofContent location r.content
  | ⟨location, .schema s⟩ =>
    match s.pointer with
    | some _ => []
    | none =>
      s.properties.map (fun (name, p) =>
          ⟨location ++ "." ++ name, .schema p⟩)
        ++ s.items.toList.map (fun t => ⟨location ++ "[]", .schema t⟩)
        ++ (Schema.additionalSchema? s.additional).toList.map (fun t =>
          ⟨location ++ ".additionalProperties", .schema t⟩)
        ++ ofMembers (location ++ ".allOf") s.allOf
        ++ ofMembers (location ++ ".oneOf") s.oneOf
        ++ ofMembers (location ++ ".anyOf") s.anyOf
        ++ s.negated.toList.map (fun t => ⟨location ++ ".not", .schema t⟩)
  | _ => []

/-- A site stands in another at a place: the numbers of the members on the way
to it. -/
inductive Stands : Site → List Nat → Site → Prop
  | here (s : Site) : Stands s [] s
  | inside {s m t : Site} {i : Nat} {place : List Nat} :
      s.members[i]? = some m → Stands m place t → Stands s (i :: place) t

end Site

/-- A reference stands in a document at a place. -/
def Document.Refers (d : Document) (place : List Nat) (o : Occurrence) : Prop :=
  ∃ s, Site.Stands ⟨"", .document d⟩ place s ∧ s.occurrence? = some o

namespace Site

-- ============================================================= recursion

/-- How far out a part stands. -/
def level : Part → Nat
  | .document _ => 4
  | .path _ => 3
  | .operation _ => 2
  | .parameter _ => 1
  | .requestBody _ => 1
  | .response _ => 1
  | .schema _ => 0

/-- How many schemas a schema holds. -/
def nodeCount : Part → Nat
  | .schema s => s.nodes.length
  | _ => 0

/-- The members that stand for parameters are parameters. -/
theorem mem_ofParameters {location : String}
    {ps : List (Referable Parameter)} {m : Site}
    (h : m ∈ ofParameters location ps) : ∃ p, m.part = .parameter p := by
  obtain ⟨⟨p, i⟩, -, rfl⟩ := List.mem_map.1 h
  exact ⟨p, rfl⟩

theorem mem_ofContent {location : String} {c : Content} {m : Site}
    (h : m ∈ ofContent location c) : ∃ s, m.part = .schema s := by
  obtain ⟨e, -, hm⟩ := List.mem_flatMap.1 h
  obtain ⟨s, -, rfl⟩ := List.mem_map.1 hm
  exact ⟨s, rfl⟩

theorem mem_ofMembers {location : String} {l : List Schema} {m : Site}
    (h : m ∈ ofMembers location l) : ∃ s ∈ l, m.part = .schema s := by
  obtain ⟨⟨s, i⟩, hs, rfl⟩ := List.mem_map.1 h
  exact ⟨s, List.fst_mem_of_mem_zipIdx hs, rfl⟩

/-- What stands in a schema are its children. -/
theorem mem_members_schema {location : String} {s : Schema} {m : Site}
    (h : m ∈ members ⟨location, .schema s⟩) :
    ∃ c ∈ s.children, m.part = .schema c := by
  simp only [members] at h
  split at h
  · exact absurd h List.not_mem_nil
  · simp only [List.mem_append, or_assoc] at h
    simp only [Schema.children, List.mem_append, or_assoc]
    rcases h with h | h | h | h | h | h | h
    · obtain ⟨e, he, rfl⟩ := List.mem_map.1 h
      exact ⟨e.2, .inl (List.mem_map_of_mem he), rfl⟩
    · obtain ⟨c, hc, rfl⟩ := List.mem_map.1 h
      exact ⟨c, by simp [hc], rfl⟩
    · obtain ⟨c, hc, rfl⟩ := List.mem_map.1 h
      exact ⟨c, by simp [hc], rfl⟩
    · obtain ⟨c, hc, hm⟩ := mem_ofMembers h
      exact ⟨c, by simp [hc], hm⟩
    · obtain ⟨c, hc, hm⟩ := mem_ofMembers h
      exact ⟨c, by simp [hc], hm⟩
    · obtain ⟨c, hc, hm⟩ := mem_ofMembers h
      exact ⟨c, by simp [hc], hm⟩
    · obtain ⟨c, hc, rfl⟩ := List.mem_map.1 h
      exact ⟨c, by simp [hc], rfl⟩

/-- The members of a part that is no schema stand further in. -/
theorem level_lt {s m : Site} (h : m ∈ s.members) (hs : level s.part ≠ 0) :
    level m.part < level s.part := by
  obtain ⟨location, part⟩ := s
  -- document, path, operation, parameter and so on: each part has its own level
  cases part with
  | document d =>
      simp only [members, List.mem_append, List.mem_map] at h
      rcases h with ((((h | h) | h) | h) | h) | h <;>
        obtain ⟨e, -, rfl⟩ := h <;> simp [level]
  | path p =>
      rcases List.mem_append.1 h with h | h
      · obtain ⟨q, hm⟩ := mem_ofParameters h
        simp [hm, level]
      · obtain ⟨e, -, rfl⟩ := List.mem_map.1 h
        simp [level]
  | operation o =>
      simp only [members, List.mem_append, List.mem_map] at h
      rcases h with (h | ⟨b, -, rfl⟩) | ⟨e, -, rfl⟩
      · obtain ⟨q, hm⟩ := mem_ofParameters h
        simp [hm, level]
      · simp [level]
      · simp [level]
  | parameter p =>
      cases p with
      | pointer t => exact absurd h List.not_mem_nil
      | inline p =>
          obtain ⟨c, -, rfl⟩ := List.mem_map.1 h
          simp [level]
  | requestBody b =>
      cases b with
      | pointer t => exact absurd h List.not_mem_nil
      | inline b =>
          obtain ⟨c, hm⟩ := mem_ofContent h
          simp [hm, level]
  | response r =>
      cases r with
      | pointer t => exact absurd h List.not_mem_nil
      | inline r =>
          obtain ⟨c, hm⟩ := mem_ofContent h
          simp [hm, level]
  | schema s => exact absurd rfl hs

/-- Members stand further in, or are schemas that hold fewer schemas. -/
theorem members_decrease {s m : Site} (h : m ∈ s.members) :
    Prod.Lex (· < ·) (· < ·) (level m.part, nodeCount m.part)
      (level s.part, nodeCount s.part) := by
  by_cases hs : level s.part = 0
  · obtain ⟨location, part⟩ := s
    cases part with
    | schema s =>
        obtain ⟨c, hc, hm⟩ := mem_members_schema h
        rw [hm]
        exact .right _ (Schema.length_nodes_lt hc)
    | _ => cases hs
  · exact .left _ _ (level_lt h hs)

/-- What passes from the members of a part to the part itself holds of every
part. -/
theorem induct {P : Site → Prop}
    (step : ∀ s, (∀ m ∈ s.members, P m) → P s) (s : Site) : P s :=
  step s fun m _ => induct step m
termination_by (level s.part, nodeCount s.part)
decreasing_by exact members_decrease ‹_›

end Site

-- ============================================================== listing

namespace Schema

variable {s : Schema}

/-- The reference of a schema that is a pointer. -/
theorem occurrences_pointer {p : String} (h : s.pointer = some p)
    (location : String) : s.occurrences location = [⟨location, .schema, p⟩] := by
  cases s
  cases h
  rw [occurrences]

/-- The references in a schema that is no pointer, by its fields. -/
theorem occurrences_eq (h : s.pointer = none) (location : String) :
    s.occurrences location
      = occurrencesInTable location s.properties
        ++ occurrencesInOption (location ++ "[]") s.items
        ++ occurrencesInAdditional (location ++ ".additionalProperties")
            s.additional
        ++ occurrencesInList (location ++ ".allOf") 0 s.allOf
        ++ occurrencesInList (location ++ ".oneOf") 0 s.oneOf
        ++ occurrencesInList (location ++ ".anyOf") 0 s.anyOf
        ++ occurrencesInOption (location ++ ".not") s.negated := by
  cases s
  cases h
  rw [occurrences]

end Schema

namespace Site

/-- The references in a part, in the order in which they are checked. -/
def occurrences : Site → List Occurrence
  | ⟨_, .document d⟩ => d.occurrences
  | ⟨location, .path p⟩ => p.occurrences location
  | ⟨location, .operation o⟩ => o.occurrences location
  | ⟨location, .parameter p⟩ => Parameter.occurrences location p
  | ⟨location, .requestBody b⟩ => RequestBody.occurrences location b
  | ⟨location, .response r⟩ => Response.occurrences location r
  | ⟨location, .schema s⟩ => s.occurrences location

/-- The parameters of a part list their references in order. -/
theorem occurrences_ofParameters (location : String)
    (ps : List (Referable Parameter)) :
    (ofParameters location ps).flatMap occurrences
      = Parameter.occurrencesInList location ps := by
  rw [ofParameters, Parameter.occurrencesInList, List.flatMap_map]
  rfl

/-- An optional schema lists the references of the schema that is there. -/
theorem occurrences_toList (location : String) (o : Option Schema) :
    (o.toList.map fun s => ⟨location, .schema s⟩).flatMap occurrences
      = Schema.occurrencesInOption location o := by
  cases o with
  | none => rfl
  | some s => exact List.append_nil _

/-- A content lists the references of its schemas. -/
theorem occurrences_ofContent (location : String) (c : Content) :
    (ofContent location c).flatMap occurrences
      = Content.occurrences location c := by
  rw [ofContent, Content.occurrences, List.flatMap_assoc]
  exact List.flatMap_congr fun e _ => occurrences_toList location e.2.schema

/-- The members of a schema list their references in order, each under its number. -/
theorem occurrences_ofMembers (location : String) (l : List Schema) :
    (ofMembers location l).flatMap occurrences
      = Schema.occurrencesInList location 0 l := by
  have numbered (i : Nat) :
      ((l.zipIdx i).map fun (s, i) =>
          (⟨location ++ "[" ++ toString i ++ "]", .schema s⟩ : Site)).flatMap
        occurrences = Schema.occurrencesInList location i l := by
    induction l generalizing i with
    | nil => rfl
    | cons s rest ih =>
        rw [List.zipIdx_cons, List.map_cons, List.flatMap_cons, ih,
          Schema.occurrencesInList, occurrences]
  exact numbered 0

/-- The properties of a schema list their references in order, each under its name. -/
theorem occurrences_properties (location : String)
    (t : List (String × Schema)) :
    (t.map fun (name, p) =>
        (⟨location ++ "." ++ name, .schema p⟩ : Site)).flatMap occurrences
      = Schema.occurrencesInTable location t := by
  induction t with
  | nil => rfl
  | cons e rest ih =>
      rw [List.map_cons, List.flatMap_cons, ih, Schema.occurrencesInTable,
        occurrences]

/-- A setting for further properties lists the references of its schema. -/
theorem occurrences_additional (location : String)
    (o : Option (Additional Schema)) :
    Schema.occurrencesInOption location (Schema.additionalSchema? o)
      = Schema.occurrencesInAdditional location o := by
  rcases o with _ | _ | s
  · rfl
  · rfl
  · rfl

/-- Every part lists the reference that it is, and then what its members
list. -/
theorem occurrences_eq (s : Site) :
    s.occurrences = s.occurrence?.toList ++ s.members.flatMap occurrences := by
  obtain ⟨location, part⟩ := s
  -- part by part, as the members are listed
  cases part with
  | document d =>
      simp only [occurrences, members, List.flatMap_append, List.flatMap_map,
        Document.occurrences, Components.occurrences]
      rfl
  | path p =>
      rw [members, List.flatMap_append, occurrences_ofParameters,
        List.flatMap_map]
      rfl
  | operation o =>
      rw [members, List.flatMap_append, List.flatMap_append,
        occurrences_ofParameters, List.flatMap_map, List.flatMap_map]
      have hbody (b : Option (Referable RequestBody)) (l : String) :
          (b.toList.flatMap fun b => occurrences ⟨l, .requestBody b⟩)
            = (b.map (RequestBody.occurrences l)).getD [] := by
        cases b with
        | none => rfl
        | some b => exact List.append_nil _
      rw [hbody]
      rfl
  | parameter p =>
      cases p with
      | pointer t => rfl
      | inline p => exact (occurrences_toList location p.schema).symm
  | requestBody b =>
      cases b with
      | pointer t => rfl
      | inline b => exact (occurrences_ofContent location b.content).symm
  | response r =>
      cases r with
      | pointer t => rfl
      | inline r => exact (occurrences_ofContent location r.content).symm
  | schema s =>
      cases hp : s.pointer with
      | some p =>
          simp only [occurrences, members, hp, occurrence?, Part.reference?,
            Schema.occurrences_pointer hp]
          rfl
      | none =>
          simp only [occurrences, members, hp, occurrence?, Part.reference?,
            Schema.occurrences_eq hp, List.flatMap_append,
            occurrences_properties, occurrences_toList,
            occurrences_additional, occurrences_ofMembers]
          rfl

-- =============================================================== places

/-- A list holds just the references in a part, each once and in the order of
their places. -/
def Enumerates (s : Site) (l : List Occurrence) : Prop :=
  ∃ entries : List (List Nat × Occurrence), entries.map Prod.snd = l
    ∧ entries.Pairwise (fun x y => x.1 < y.1)
    ∧ ∀ place o, (place, o) ∈ entries
        ↔ ∃ t, Stands s place t ∧ t.occurrence? = some o

/-- The members of a part one after the other: their places are behind one
another, since the number of the member comes first. -/
theorem enumerates_members (ms : List Site) (k : Nat)
    (h : ∀ m ∈ ms, Enumerates m m.occurrences) :
    ∃ entries : List (List Nat × Occurrence),
      entries.map Prod.snd = ms.flatMap occurrences
        ∧ entries.Pairwise (fun x y => x.1 < y.1)
        ∧ ∀ place o, (place, o) ∈ entries
            ↔ ∃ i m rest t, ms[i]? = some m ∧ place = (k + i) :: rest
                ∧ Stands m rest t ∧ t.occurrence? = some o := by
  induction ms generalizing k with
  | nil => exact ⟨[], rfl, .nil, by simp⟩
  | cons m ms ih =>
      obtain ⟨own, hown, hsorted, hmem⟩ := h m List.mem_cons_self
      obtain ⟨others, hothers, hsorted', hmem'⟩ :=
        ih (k + 1) fun m hm => h m (List.mem_cons_of_mem _ hm)
      -- e.1, e.2)) :: the places of this member begin with its number, those of the
      -- others with greater ones
      refine ⟨own.map (fun e => (k :: e.1, e.2)) ++ others, ?_, ?_, ?_⟩
      · rw [List.map_append, hothers, List.flatMap_cons, ← hown, List.map_map]
        rfl
      · refine List.pairwise_append.2 ⟨?_, hsorted', ?_⟩
        · rw [List.pairwise_map]
          exact hsorted.imp fun hlt => List.cons_lt_cons_iff.2 (.inr ⟨rfl, hlt⟩)
        · intro x hx y hy
          obtain ⟨e, -, rfl⟩ := List.mem_map.1 hx
          obtain ⟨i, _, rest, _, -, hplace, -⟩ := (hmem' y.1 y.2).1 hy
          rw [hplace]
          exact List.cons_lt_cons_iff.2 (.inl (by omega))
      · intro place o
        rw [List.mem_append, hmem']
        constructor
        · rintro (hin | ⟨i, m', rest, t, hm', rfl, ht, ho⟩)
          · obtain ⟨⟨rest, o'⟩, he, heq⟩ := List.mem_map.1 hin
            cases heq
            obtain ⟨t, ht, ho⟩ := (hmem rest o').1 he
            exact ⟨0, m, rest, t, rfl, rfl, ht, ho⟩
          · refine ⟨i + 1, m', rest, t, hm', ?_, ht, ho⟩
            rw [Nat.add_assoc, Nat.add_comm 1 i]
        · rintro ⟨i, m', rest, t, hm', rfl, ht, ho⟩
          cases i with
          | zero =>
              cases hm'
              refine .inl (List.mem_map.2 ⟨(rest, o), ?_, rfl⟩)
              exact (hmem rest o).2 ⟨t, ht, ho⟩
          | succ i =>
              refine .inr ⟨i, m', rest, t, hm', ?_, ht, ho⟩
              rw [Nat.add_assoc, Nat.add_comm 1 i]

/-- A part's own reference comes before those of its members. -/
theorem Enumerates.step {s : Site}
    (h : ∀ m ∈ s.members, Enumerates m m.occurrences) :
    Enumerates s s.occurrences := by
  obtain ⟨inner, hinner, hsorted, hmem⟩ := enumerates_members s.members 0 h
  -- the part itself stands at the empty place, which comes before all others
  refine ⟨s.occurrence?.toList.map (fun o => ([], o)) ++ inner, ?_, ?_, ?_⟩
  · rw [occurrences_eq, List.map_append, hinner, List.map_map]
    congr 1
    exact List.map_id _
  · refine List.pairwise_append.2 ⟨?_, hsorted, ?_⟩
    · cases s.occurrence? with
      | none => exact .nil
      | some o => exact List.pairwise_singleton ..
    · intro x hx y hy
      obtain ⟨o, -, rfl⟩ := List.mem_map.1 hx
      obtain ⟨i, _, rest, _, -, hplace, -⟩ := (hmem y.1 y.2).1 hy
      rw [hplace]
      exact List.nil_lt_cons ..
  · intro place o
    rw [List.mem_append, hmem]
    constructor
    · rintro (hown | ⟨i, m, rest, t, hm, rfl, ht, ho⟩)
      · obtain ⟨o', ho', heq⟩ := List.mem_map.1 hown
        cases heq
        exact ⟨s, .here s, Option.mem_toList.1 ho'⟩
      · rw [Nat.zero_add]
        exact ⟨t, .inside hm ht, ho⟩
    · rintro ⟨t, ht, ho⟩
      cases ht with
      | here =>
          exact .inl (List.mem_map.2 ⟨o, Option.mem_toList.2 ho, rfl⟩)
      | @inside _ m _ i rest hm ht =>
          exact .inr ⟨i, m, rest, t, hm, by rw [Nat.zero_add], ht, ho⟩

theorem enumerates_occurrences (s : Site) : Enumerates s s.occurrences :=
  induct (fun _ h => Enumerates.step h) s

end Site

-- ========================================================= by their places

namespace Document

/-- The references of a document with their places, first place first. -/
theorem exists_entries (d : Document) :
    ∃ entries : List (List Nat × Occurrence), entries.map Prod.snd = d.occurrences
      ∧ entries.Pairwise (fun x y => x.1 < y.1)
      ∧ ∀ place o, (place, o) ∈ entries ↔ d.Refers place o :=
  Site.enumerates_occurrences ⟨"", .document d⟩

/-- What holds of all listed references holds of all that stand in the document. -/
theorem forall_occurrences_iff (d : Document) {P : Occurrence → Prop} :
    (∀ o ∈ d.occurrences, P o) ↔ ∀ place o, d.Refers place o → P o := by
  obtain ⟨entries, hlist, -, hmem⟩ := d.exists_entries
  simp only [← hlist, ← hmem, List.mem_map, Prod.exists]
  exact ⟨fun h place o ho => h o ⟨place, o, ho, rfl⟩,
    fun h o ⟨place, o', ho, heq⟩ => heq ▸ h place o' ho⟩

/-- As many references are listed as there are places with one. -/
theorem encard_places (d : Document) :
    {place | ∃ o, d.Refers place o}.encard = d.occurrences.length := by
  obtain ⟨entries, hlist, hsorted, hmem⟩ := d.exists_entries
  have hnodup : (entries.map Prod.fst).Nodup :=
    List.pairwise_map.2 (hsorted.imp fun hlt => hlt.ne)
  have hcount := Distinct.encard_keys hnodup
  simp only [hmem] at hcount
  rw [hcount, ← hlist, List.length_map]

/-- What comes before a reference in the list has a lesser place. -/
theorem first_occurrence_iff (d : Document) {P Q : Occurrence → Prop} :
    (∃ before o after, d.occurrences = before ++ o :: after ∧ P o
        ∧ ∀ o' ∈ before, Q o')
      ↔ ∃ place o, d.Refers place o ∧ P o
        ∧ ∀ place' < place, ∀ o', d.Refers place' o' → Q o' := by
  obtain ⟨entries, hlist, hsorted, hmem⟩ := d.exists_entries
  simp only [← hlist, ← hmem]
  constructor
  · rintro ⟨before, o, after, hsplit, ho, hbefore⟩
    obtain ⟨entries₁, rest, rfl, rfl, hrest⟩ := List.map_eq_append_iff.1 hsplit
    obtain ⟨⟨place, o⟩, entries₂, rfl, rfl, -⟩ := List.map_eq_cons_iff.1 hrest
    refine ⟨place, o, by simp, ho, fun place' hlt o' ho' => ?_⟩
    rcases List.mem_append.1 ho' with hin | hin
    · exact hbefore o' (List.mem_map_of_mem hin)
    · -- from the reference on, no place is lesser
      have hle : place ≤ place' := by
        rcases List.mem_cons.1 hin with heq | hin
        · exact (congrArg Prod.fst heq).ge
        · have hsorted' := (List.pairwise_append.1 hsorted).2.1
          exact ((List.pairwise_cons.1 hsorted').1 _ hin).le
      exact absurd hlt hle.not_gt
  · rintro ⟨place, o, hin, ho, hbefore⟩
    obtain ⟨entries₁, entries₂, rfl⟩ := List.append_of_mem hin
    refine ⟨entries₁.map Prod.snd, o, entries₂.map Prod.snd, by simp, ho, ?_⟩
    intro o' ho'
    obtain ⟨⟨place', o'⟩, hin', rfl⟩ := List.mem_map.1 ho'
    have hlt := (List.pairwise_append.1 hsorted).2.2 _ hin' _
      (List.mem_cons_self ..)
    exact hbefore place' hlt o' (List.mem_append_left _ hin')

end Document

end ApiForge
