import ApiForge.Proofs.Distinct
import ApiForge.Proofs.Document.Alike
/-!
Documents in canonical form.

# Type names

`canonicalTypes_eq` gives the type names of a canonical schema: those other
than null, each where it stands first, and then null if it is admitted. A
second time nothing is left to do.

# Walks

A part of a document is made canonical by a walk that counts on the way.
`Settles f S a` says of such a walk `f` that it brings `a` to a value which is
related to `a` by `S` and which the walk itself leaves as it is, both whatever
it has counted before. There is one rule for each way in which a walk is put
together, so that what changes and what stays is settled together with the
second run.

# Main result

Making a document canonical changes the type names and the flag of every
schema, nothing else, and counts the schemas; and its result is a fixed point.
-/

namespace ApiForge

-- ========================================================== type names

namespace Schema

/-- Null is the last of the canonical names if it is among those given. -/
theorem nullLast_eq (given : List String) :
    (if given.eraseDups.contains nullName
      then given.eraseDups.filter (fun t => t != nullName) ++ [nullName]
      else given.eraseDups)
      = (given.filter fun t => t != nullName).eraseDups
        ++ if nullName ∈ given then [nullName] else [] := by
  rw [Distinct.eraseDups_filter]
  by_cases hnull : nullName ∈ given
  · rw [if_pos hnull, if_pos (by simpa using hnull)]
  · have hkeep : given.eraseDups.filter (fun t => t != nullName)
        = given.eraseDups := by
      refine List.filter_eq_self.2 fun t ht => bne_iff_ne.2 ?_
      exact ne_of_mem_of_not_mem (List.mem_eraseDups.1 ht) hnull
    rw [if_neg hnull, if_neg (by simpa using hnull), hkeep, List.append_nil]

/-- Canonical types are the others without repetition, and null at the end if it is
among them or allowed. -/
theorem canonicalTypes_eq (types : List String) (nullable : Option Bool) :
    canonicalTypes types nullable
      = (types.filter fun t => t != nullName).eraseDups
        ++ if nullName ∈ types ∨ nullable = some true then [nullName] else [] := by
  rw [canonicalTypes, nullLast_eq]
  by_cases hflag : nullable = some true
  · have hlast : nullName ∈ types ++ [nullName] :=
      List.mem_append_right _ (List.mem_singleton_self _)
    rw [if_pos (by simpa using hflag), if_pos hlast, if_pos (Or.inr hflag),
      List.filter_append]
    simp
  · rw [if_neg (by simpa using hflag)]
    simp [hflag]

example : canonicalTypes ["null", "string", "null", "string"] (some true)
    = ["string", "null"] := by decide

/-- The canonical names but for null are the names but for null, each once. -/
theorem filter_canonicalTypes (types : List String) (nullable : Option Bool) :
    (canonicalTypes types nullable).filter (fun t => t != nullName)
      = (types.filter fun t => t != nullName).eraseDups := by
  rw [canonicalTypes_eq, List.filter_append, Distinct.eraseDups_filter,
    List.filter_filter]
  split <;> simp

/-- Canonical types stay as they are. -/
theorem canonicalTypes_twice (types : List String) (nullable : Option Bool) :
    canonicalTypes (canonicalTypes types nullable) none
      = canonicalTypes types nullable := by
  have hnull : nullName ∈ canonicalTypes types nullable
      ↔ nullName ∈ types ∨ nullable = some true := by
    rw [canonicalTypes_eq]
    split <;> simp [*]
  rw [canonicalTypes_eq (canonicalTypes types nullable), filter_canonicalTypes,
    Distinct.eraseDups_of_nodup (Distinct.nodup_eraseDups _)]
  simp only [hnull, reduceCtorEq, or_false, ← canonicalTypes_eq]

theorem primaryType_eq (types : List String) :
    primaryType types = (types.filter (· != nullName)).head? :=
  List.head?_filter.symm

/-- The canonical type names have the same first name. -/
theorem primaryType_canonicalTypes (types : List String)
    (nullable : Option Bool) :
    primaryType (canonicalTypes types nullable) = primaryType types := by
  rw [primaryType_eq, primaryType_eq, filter_canonicalTypes]
  cases types.filter (· != nullName) with
  | nil => rfl
  | cons t rest => rw [List.eraseDups_cons]; rfl

end Schema

-- =============================================================== walks

section Walk

variable {α : Type} {f : α → StateM Nat α} {S : α → α → Prop}

/-- The walk leaves the value as it is. -/
def Fixed (f : α → StateM Nat α) (a : α) : Prop :=
  ∀ n, (f a n).1 = a

/-- The walk brings the value to one that is related to it and that it leaves
as it is. -/
def Settles (f : α → StateM Nat α) (S : α → α → Prop) (a : α) : Prop :=
  ∀ n, S a (f a n).1 ∧ Fixed f (f a n).1

/-- What it is brought to has both properties. -/
theorem Settles.withFixed {a : α} (h : Settles f S a) :
    Settles f (fun a a' => S a a' ∧ Fixed f a') a :=
  fun n => ⟨h n, (h n).2⟩

/-- A list stays as it is when its first member and the others do. -/
theorem Fixed.cons {a : α} {l : List α} (ha : Fixed f a)
    (hl : Fixed (List.mapM f) l) : Fixed (List.mapM f) (a :: l) := by
  intro n
  rw [List.mapM_cons]
  show (f a n).1 :: (l.mapM f (f a n).2).1 = a :: l
  rw [ha, hl]

/-- A walk leaves a list as it is if it does so with the members. -/
theorem Fixed.mapM {l : List α} (h : ∀ a ∈ l, Fixed f a) :
    Fixed (List.mapM f) l := by
  induction l with
  | nil => exact fun _ => rfl
  | cons a l ih =>
      have hl := ih fun b hb => h b (List.mem_cons_of_mem _ hb)
      exact (h a (List.mem_cons_self ..)).cons hl

/-- A list settles when each of its members does. -/
theorem Settles.mapM {l : List α} (h : ∀ a ∈ l, Settles f S a) :
    Settles (List.mapM f) (List.Forall₂ S) l := by
  induction l with
  | nil => exact fun _ => ⟨.nil, fun _ => rfl⟩
  | cons a l ih =>
      intro n
      obtain ⟨ha, hfixed⟩ := h a (List.mem_cons_self ..) n
      obtain ⟨hl, hrest⟩ := ih (fun b hb => h b (List.mem_cons_of_mem _ hb)) (f a n).2
      rw [List.mapM_cons]
      exact ⟨.cons ha hl, hfixed.cons hrest⟩

/-- The walk on an entry, which leaves the key alone. -/
def onValue {κ : Type} (f : α → StateM Nat α) : κ × α → StateM Nat (κ × α) :=
  fun (k, a) => do return (k, ← f a)

theorem Fixed.onValue {κ : Type} {e : κ × α} (h : Fixed f e.2) :
    Fixed (onValue f) e :=
  fun n => Prod.ext rfl (h n)

theorem Settles.onValue {κ : Type} {e : κ × α} (h : Settles f S e.2) :
    Settles (onValue f) (Keyed S) e := by
  intro n
  obtain ⟨ha, hfixed⟩ := h n
  exact ⟨.intro ha, hfixed.onValue⟩

/-- The values of a table are settled one after the other. -/
theorem Settles.table {t : Table α} (h : ∀ a ∈ t.map (·.2), Settles f S a) :
    Settles (Table.mapM f) (Table.Alike S) t :=
  Settles.mapM fun _ he => (h _ (List.mem_map_of_mem he)).onValue

/-- An option settles when its member does. -/
theorem Settles.option {o : Option α} (h : ∀ a ∈ o.toList, Settles f S a) :
    Settles (Option.mapM f) (Option.Rel S) o := by
  intro n
  cases o with
  | none => exact ⟨.none, fun _ => rfl⟩
  | some a =>
      obtain ⟨ha, hfixed⟩ := h a (List.mem_singleton_self a) n
      exact ⟨.some ha, fun m => congrArg some (hfixed m)⟩

/-- A pointer is settled, and an entry written out by what it holds. -/
theorem Settles.referable (h : ∀ a, Settles f S a) (e : Referable α) :
    Settles (Referable.mapM f) (Referable.Alike S) e := by
  intro n
  cases e with
  | pointer target => exact ⟨.pointer target, fun _ => rfl⟩
  | inline a =>
      obtain ⟨ha, hfixed⟩ := h a n
      exact ⟨.inline ha, fun m => congrArg Referable.inline (hfixed m)⟩

end Walk

-- ============================================================= schemas

namespace Schema

/-- The schema with the canonical type names and without the flag. What stands
in it is left open. -/
def Canonized (s s' : Schema) : Prop :=
  s' = { s with
    types := canonicalTypes s.types s.nullable, nullable := none
    properties := s'.properties, items := s'.items
    additional := s'.additional, allOf := s'.allOf, oneOf := s'.oneOf
    anyOf := s'.anyOf, negated := s'.negated }

theorem Canonized.names {s s' : Schema} (h : Canonized s s') :
    (s'.types, s'.nullable) = (canonicalTypes s.types s.nullable, none) :=
  congrArg (fun s => (s.types, s.nullable)) h

/-- A table of schemas is brought into form member by member. -/
theorem canonicalTable_eq (t : Table Schema) :
    canonicalTable t = t.mapM canonical := by
  induction t with
  | nil => rfl
  | cons e rest ih =>
      rw [canonicalTable, ih, Table.mapM, Table.mapM, List.mapM_cons]
      simp only [bind_assoc, pure_bind]

theorem canonicalList_eq (l : List Schema) :
    canonicalList l = l.mapM canonical := by
  induction l with
  | nil => rfl
  | cons s rest ih => rw [canonicalList, ih, List.mapM_cons]

theorem canonicalOption_eq (o : Option Schema) :
    canonicalOption o = o.mapM canonical := by
  cases o <;> rfl

/-- A setting for further properties settles when its schema does. -/
theorem settles_additional {S : Schema → Schema → Prop}
    {o : Option (Additional Schema)}
    (h : ∀ s ∈ (additionalSchema? o).toList, Settles canonical S s) :
    Settles canonicalAdditional (Option.Rel (Additional.Alike S)) o := by
  intro n
  match o with
  | none => exact ⟨.none, fun _ => rfl⟩
  | some (.allowed yes) => exact ⟨.some (.allowed yes), fun _ => rfl⟩
  | some (.shaped s) =>
      obtain ⟨hs, hfixed⟩ := h s (List.mem_singleton_self s) n
      exact ⟨.some (.shaped hs), fun m =>
        congrArg (fun s => some (Additional.shaped s)) (hfixed m)⟩

/-- What becomes of a schema, each part being walked after some count. -/
theorem canonical_fst (s : Schema) (n : Nat) :
    ∃ n₁ n₂ n₃ n₄ n₅ n₆ n₇, (s.canonical n).1 = { s with
      types := canonicalTypes s.types s.nullable, nullable := none
      properties := (Table.mapM canonical s.properties n₁).1
      items := (Option.mapM canonical s.items n₂).1
      additional := (canonicalAdditional s.additional n₃).1
      allOf := (List.mapM canonical s.allOf n₄).1
      oneOf := (List.mapM canonical s.oneOf n₅).1
      anyOf := (List.mapM canonical s.anyOf n₆).1
      negated := (Option.mapM canonical s.negated n₇).1 } := by
  simp only [← canonicalTable_eq, ← canonicalList_eq, ← canonicalOption_eq]
  cases s
  rw [canonical]
  exact ⟨_, _, _, _, _, _, _, rfl⟩

/-- A schema settles, all its nodes with it. -/
theorem settles (s : Schema) : Settles canonical (Alike Canonized) s := by
  induction s using induct with
  | step s ih =>
      intro n
      -- the hypothesis on the children, field by field
      simp only [children, List.mem_append, or_imp, forall_and] at ih
      obtain ⟨⟨⟨⟨⟨⟨properties, items⟩, additional⟩, allOf⟩, oneOf⟩, anyOf⟩,
        negated⟩ := ih
      obtain ⟨n₁, n₂, n₃, n₄, n₅, n₆, n₇, hs⟩ := canonical_fst s n
      have properties := Settles.table properties n₁
      have items := Settles.option items n₂
      have additional := settles_additional additional n₃
      have allOf := Settles.mapM allOf n₄
      have oneOf := Settles.mapM oneOf n₅
      have anyOf := Settles.mapM anyOf n₆
      have negated := Settles.option negated n₇
      rw [hs]
      refine ⟨.intro rfl properties.1 items.1 additional.1 allOf.1 oneOf.1
        anyOf.1 negated.1, fun m => ?_⟩
      obtain ⟨m₁, m₂, m₃, m₄, m₅, m₆, m₇, hm⟩ := canonical_fst _ m
      rw [hm, properties.2, items.2, additional.2, allOf.2, oneOf.2, anyOf.2,
        negated.2, canonicalTypes_twice]

theorem settles_option (o : Option Schema) :
    Settles canonicalOption (Option.Rel (Alike Canonized)) o := by
  rw [show canonicalOption = Option.mapM canonical from
    funext canonicalOption_eq]
  exact Settles.option fun s _ => settles s

end Schema

-- ========================================================= other parts

open Schema (Canonized canonicalTypes)

theorem MediaType.settles (m : MediaType) :
    Settles MediaType.canonical (MediaType.Alike Canonized) m := by
  intro n
  obtain ⟨hschema, hfixed⟩ := Schema.settles_option m.schema n
  exact ⟨hschema, fun k => congrArg MediaType.mk (hfixed k)⟩

theorem Content.settles (c : Content) :
    Settles (Table.mapM MediaType.canonical)
      (Table.Alike (MediaType.Alike Canonized)) c :=
  Settles.table fun m _ => m.settles

/-- A parameter settles with its schema and its content. -/
theorem Parameter.settles (p : Parameter) :
    Settles Parameter.canonical (Parameter.Alike Canonized) p := by
  intro n
  obtain ⟨hschema, hfixed⟩ := Schema.settles_option p.schema n
  exact ⟨⟨hschema, rfl⟩, fun m =>
    congrArg (fun schema => { p with schema }) (hfixed m)⟩

/-- A body settles with its content. -/
theorem RequestBody.settles (b : RequestBody) :
    Settles RequestBody.canonical (RequestBody.Alike Canonized) b := by
  intro n
  obtain ⟨hcontent, hfixed⟩ := Content.settles b.content n
  exact ⟨⟨hcontent, rfl⟩, fun m =>
    congrArg (fun content => { b with content }) (hfixed m)⟩

/-- A response settles with its content. -/
theorem Response.settles (r : Response) :
    Settles Response.canonical (Response.Alike Canonized) r := by
  intro n
  obtain ⟨hcontent, hfixed⟩ := Content.settles r.content n
  exact ⟨⟨hcontent, rfl⟩, fun m =>
    congrArg (fun content => { r with content }) (hfixed m)⟩

/-- The parameters of an operation or of a path. -/
theorem Parameter.settles_list (ps : List (Referable Parameter)) :
    Settles (List.mapM (Referable.mapM Parameter.canonical))
      (List.Forall₂ (Referable.Alike (Parameter.Alike Canonized))) ps :=
  Settles.mapM fun p _ => Settles.referable Parameter.settles p

/-- The answers of an operation, or those that are shared. -/
theorem Response.settles_table (t : Table (Referable Response)) :
    Settles (Table.mapM (Referable.mapM Response.canonical))
      (Table.Alike (Referable.Alike (Response.Alike Canonized))) t :=
  Settles.table fun r _ => Settles.referable Response.settles r

/-- An operation is brought into form part by part, whatever the count is. -/
theorem Operation.canonical_fst (o : Operation) (n : Nat) :
    ∃ n₁ n₂ n₃, (o.canonical n).1 = { o with
      parameters :=
        (List.mapM (Referable.mapM Parameter.canonical) o.parameters n₁).1
      body := (Option.mapM (Referable.mapM RequestBody.canonical) o.body n₂).1
      responses :=
        (Table.mapM (Referable.mapM Response.canonical) o.responses n₃).1 } :=
  ⟨_, _, _, rfl⟩

/-- An operation settles with its parts. -/
theorem Operation.settles (o : Operation) :
    Settles Operation.canonical (Operation.Alike Canonized) o := by
  intro n
  obtain ⟨n₁, n₂, n₃, ho⟩ := o.canonical_fst n
  have parameters := Parameter.settles_list o.parameters n₁
  have body := Settles.option (o := o.body)
    (fun b _ => Settles.referable RequestBody.settles b) n₂
  have responses := Response.settles_table o.responses n₃
  rw [ho]
  refine ⟨⟨parameters.1, body.1, responses.1, rfl⟩, fun m => ?_⟩
  obtain ⟨m₁, m₂, m₃, hm⟩ := canonical_fst _ m
  rw [hm, parameters.2, body.2, responses.2]

-- =============================================================== paths

/-- What is listed under a key is what the function has there. -/
theorem lookup_filterMap {κ α : Type} [DecidableEq κ] (g : κ → Option α)
    (keys : List κ) (k : κ) :
    (keys.filterMap fun j => (g j).map (j, ·)).lookup k
      = if k ∈ keys then g k else none := by
  induction keys with
  | nil => rfl
  | cons j keys ih =>
      rw [List.filterMap_cons]
      by_cases hjk : k = j
      · subst hjk
        cases hg : g k with
        | none => simp [ih, hg]
        | some a => simp
      · have hmem : k ∈ j :: keys ↔ k ∈ keys := by simp [hjk]
        rw [if_congr hmem rfl rfl, ← ih]
        cases g j with
        | none => rfl
        | some a =>
            rw [Option.map_some, List.lookup_cons, beq_false_of_ne hjk]

/-- What is looked up in tables that are alike is alike. -/
theorem Keyed.lookup {κ α : Type} [BEq κ] {S : α → α → Prop}
    {l l' : List (κ × α)} (h : List.Forall₂ (Keyed S) l l') (k : κ) :
    Option.Rel S (l.lookup k) (l'.lookup k) := by
  induction h with
  | nil => exact .none
  | cons he _ ih =>
      cases he with
      | intro ha =>
          rw [List.lookup_cons, List.lookup_cons]
          split
          · exact .some ha
          · exact ih

/-- Two facts about an option can be told apart. -/
theorem rel_and {α : Type} {S : α → α → Prop} {P : α → Prop} {o o' : Option α}
    (h : Option.Rel (fun a a' => S a a' ∧ P a') o o') :
    Option.Rel S o o' ∧ ∀ a ∈ o', P a := by
  cases h with
  | none => exact ⟨.none, fun _ ha => nomatch ha⟩
  | some h => exact ⟨.some h.1, fun _ ha => Option.some.inj ha ▸ h.2⟩

namespace PathItem

theorem lookup_operations (p : PathItem) (v : Verb) :
    p.operations.lookup v = p.operation v := by
  rw [operations, lookup_filterMap, if_pos v.mem_all]

theorem operation_of_mem {p : PathItem} {e : Verb × Operation}
    (h : e ∈ p.operations) : p.operation e.1 = some e.2 := by
  obtain ⟨v, -, hv⟩ := List.mem_filterMap.1 h
  obtain ⟨o, ho, rfl⟩ := Option.map_eq_some_iff.1 hv
  exact ho

theorem canonical_fst (p : PathItem) (n : Nat) :
    ∃ n₁ n₂, (p.canonical n).1 = { p with
      parameters :=
        (List.mapM (Referable.mapM Parameter.canonical) p.parameters n₁).1
      operation := fun v =>
        (List.mapM (onValue Operation.canonical) p.operations n₂).1.lookup v } :=
  ⟨_, _, rfl⟩

/-- Every operation of a path is brought to one that stays as it is. -/
theorem settles_operations (p : PathItem) (n : Nat) (v : Verb) :
    Option.Rel (Operation.Alike Canonized) (p.operation v)
        ((List.mapM (onValue Operation.canonical) p.operations n).1.lookup v)
      ∧ ∀ o ∈ (List.mapM (onValue Operation.canonical) p.operations n).1.lookup v,
        Fixed Operation.canonical o := by
  have hentries := Settles.mapM (l := p.operations)
    (fun e _ => (Operation.settles e.2).withFixed.onValue) n
  have hlookup := Keyed.lookup hentries.1 v
  rw [p.lookup_operations v] at hlookup
  exact rel_and hlookup

theorem fixed_operations {p : PathItem}
    (h : ∀ v, ∀ o ∈ p.operation v, Fixed Operation.canonical o) :
    Fixed (List.mapM (onValue Operation.canonical)) p.operations :=
  Fixed.mapM fun e he => (h e.1 e.2 (operation_of_mem he)).onValue

/-- An item settles with its parameters and its operations. -/
theorem settles (p : PathItem) :
    Settles PathItem.canonical (PathItem.Alike Canonized) p := by
  intro n
  obtain ⟨n₁, n₂, hp⟩ := p.canonical_fst n
  have parameters := Parameter.settles_list p.parameters n₁
  have operations := p.settles_operations n₂
  -- the new operations by name, or the second run would be taken for the first
  generalize (List.mapM (onValue Operation.canonical) p.operations n₂).1
    = entries at hp operations
  rw [hp]
  refine ⟨⟨parameters.1, fun v => (operations v).1, rfl⟩, fun m => ?_⟩
  obtain ⟨m₁, m₂, hm⟩ := canonical_fst _ m
  rw [hm, parameters.2, fixed_operations]
  · simp only [lookup_operations]
  · exact fun v => (operations v).2

end PathItem

-- ============================================================ documents

/-- Components are brought into form part by part, whatever the count is. -/
theorem Components.canonical_fst (c : Components) (n : Nat) :
    ∃ n₁ n₂ n₃ n₄, (c.canonical n).1 = { c with
      schemas := (Table.mapM Schema.canonical c.schemas n₁).1
      responses :=
        (Table.mapM (Referable.mapM Response.canonical) c.responses n₂).1
      parameters :=
        (Table.mapM (Referable.mapM Parameter.canonical) c.parameters n₃).1
      requestBodies :=
        (Table.mapM (Referable.mapM RequestBody.canonical)
          c.requestBodies n₄).1 } := by
  simp only [← Schema.canonicalTable_eq]
  exact ⟨_, _, _, _, rfl⟩

/-- Components settle with their parts. -/
theorem Components.settles (c : Components) :
    Settles Components.canonical (Components.Alike Canonized) c := by
  intro n
  obtain ⟨n₁, n₂, n₃, n₄, hc⟩ := c.canonical_fst n
  have schemas := Settles.table (t := c.schemas) (fun s _ => s.settles) n₁
  have responses := Response.settles_table c.responses n₂
  have parameters := Settles.table (t := c.parameters)
    (fun p _ => Settles.referable Parameter.settles p) n₃
  have bodies := Settles.table (t := c.requestBodies)
    (fun b _ => Settles.referable RequestBody.settles b) n₄
  rw [hc]
  refine ⟨⟨schemas.1, responses.1, parameters.1, bodies.1, rfl⟩, fun m => ?_⟩
  obtain ⟨m₁, m₂, m₃, m₄, hm⟩ := canonical_fst _ m
  rw [hm, schemas.2, responses.2, parameters.2, bodies.2]

namespace Document

theorem canonical_fst (d : Document) :
    ∃ n₁ n₂ n₃, d.canonical.1 = { d with
      components := (Option.mapM Components.canonical d.components n₁).1
      paths := (Option.mapM (Table.mapM PathItem.canonical) d.paths n₂).1
      webhooks := (Table.mapM PathItem.canonical d.webhooks n₃).1 } :=
  ⟨_, _, _, rfl⟩

/-- A document and its canonical form differ in the type names and the flags of
their schemas only. The canonical form is its own. -/
theorem canonical_settles (d : Document) :
    Document.Alike Canonized d d.canonical.1
      ∧ d.canonical.1.canonical.1 = d.canonical.1 := by
  obtain ⟨n₁, n₂, n₃, hd⟩ := d.canonical_fst
  have components := Settles.option (o := d.components)
    (fun c _ => c.settles) n₁
  have paths := Settles.option (o := d.paths)
    (fun _ _ => Settles.table fun p _ => p.settles) n₂
  have webhooks := Settles.table (t := d.webhooks) (fun p _ => p.settles) n₃
  rw [hd]
  refine ⟨⟨components.1, paths.1, webhooks.1, rfl⟩, ?_⟩
  obtain ⟨m₁, m₂, m₃, hm⟩ := canonical_fst { d with
    components := _, paths := _, webhooks := _ }
  rw [hm, components.2, paths.2, webhooks.2]

/-- All nodes of a document are in canonical form, in order. -/
theorem canonical_nodes (d : Document) :
    d.canonical.1.nodes.map (fun s => (s.types, s.nullable))
      = d.nodes.map (fun s => (canonicalTypes s.types s.nullable, none)) := by
  have hnodes := d.canonical_settles.1.nodes
  rw [← List.forall₂_eq_eq_eq, List.forall₂_map_left_iff,
    List.forall₂_map_right_iff]
  exact hnodes.flip.imp fun _ _ hs => Canonized.names hs

theorem canonical_snd (d : Document) :
    d.canonical.1.canonical.2 = d.canonical.2 := by
  calc d.canonical.1.schemaCount
      = d.canonical.1.nodes.length := d.canonical.1.schemaCount_eq
    _ = d.nodes.length := d.canonical_settles.1.nodes.length_eq.symm
    _ = d.schemaCount := d.schemaCount_eq.symm

-- ========================================================= main result

/-- The canonical form of a document has the canonical type names in each of
its schemas, in the order of the nodes, and is otherwise the document. The
number given with it is that of the nodes. Made canonical once more it stays
as it is, with the same number. -/
theorem canonical_exact (d : Document) :
    Document.Alike Canonized d d.canonical.1
      ∧ d.canonical.1.nodes.map (fun s => (s.types, s.nullable))
          = d.nodes.map (fun s => (canonicalTypes s.types s.nullable, none))
      ∧ d.canonical.2 = d.nodes.length
      ∧ d.canonical.1.canonical = d.canonical := by
  obtain ⟨halike, hfixed⟩ := d.canonical_settles
  exact ⟨halike, d.canonical_nodes, d.schemaCount_eq,
    Prod.ext hfixed d.canonical_snd⟩

end Document

end ApiForge
