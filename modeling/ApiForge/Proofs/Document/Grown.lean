import ApiForge.Proofs.Document.Canonical
import ApiForge.Proofs.Shape.Terse
/-!
A document with one component schema more.

`Document.withSchema` adds a component schema, under a name that the document
does not use. In the list of the component schemas this is one place, between
those before it and those behind (`insert_split`); everything else in the
document stays.

The canonical form of the larger document is the canonical form of the smaller
one with the canonical form of the schema (`canonical_withSchema`). This needs
an argument because the walk that makes a document canonical counts: the schema
is visited before other parts, and these are then reached with another number.
But no answer of the walk depends on the number that it has reached (`Steady`).
-/

namespace ApiForge

-- ============================================================== steady walks

/-- What a step of the walk answers does not depend on the count. -/
def Steady {α : Type} (m : StateM Nat α) : Prop :=
  ∀ n n', (m n).1 = (m n').1

namespace Steady

variable {α β : Type}

theorem pure (a : α) : Steady (pure a) := fun _ _ => rfl

theorem step : Steady (modify (· + 1)) := fun _ _ => rfl

/-- Steady runs are steady in sequence. -/
theorem bind {m : StateM Nat α} {f : α → StateM Nat β} (hm : Steady m)
    (hf : ∀ a, Steady (f a)) : Steady (m >>= f) := by
  intro n n'
  show (f (m n).1 (m n).2).1 = (f (m n').1 (m n').2).1
  rw [hm n n']
  exact hf _ _ _

/-- What is made of a step's answer depends on it only. -/
theorem bind_pure {m : StateM Nat α} {f : α → β} (hm : Steady m) :
    Steady (m >>= fun a => Pure.pure (f a)) :=
  hm.bind fun a => pure (f a)

/-- A run over a list is steady when it is for each member. -/
theorem mapM {l : List α} {f : α → StateM Nat β} (hf : ∀ a ∈ l, Steady (f a)) :
    Steady (l.mapM f) := by
  induction l with
  | nil => exact pure []
  | cons a l ih =>
      rw [List.mapM_cons]
      refine (hf a (List.mem_cons_self ..)).bind fun b => bind_pure ?_
      exact ih fun x hx => hf x (List.mem_cons_of_mem _ hx)

theorem tableMapM {f : α → StateM Nat β} (hf : ∀ a, Steady (f a))
    (t : Table α) : Steady (t.mapM f) :=
  mapM fun e _ => bind_pure (hf e.2)

/-- A run over an option is steady when it is for any value. -/
theorem optionMapM {f : α → StateM Nat β} (hf : ∀ a, Steady (f a))
    (o : Option α) : Steady (o.mapM f) := by
  cases o with
  | none => exact pure none
  | some a =>
      rw [Option.mapM_some]
      exact bind_pure (hf a)

theorem referable {f : α → StateM Nat α} (hf : ∀ a, Steady (f a))
    (e : Referable α) : Steady (e.mapM f) := by
  cases e with
  | pointer target => exact pure _
  | inline a => exact bind_pure (hf a)

end Steady

namespace Schema

mutual

/-- The canonical form of a schema does not depend on the count. The proof goes
by the recursion of the walk. -/
theorem steady_canonical (s : Schema) : Steady s.canonical := by
  match s with
  | { properties, items, additional, allOf, oneOf, anyOf, negated, .. } =>
    rw [canonical]
    exact .bind .step fun _ => (steady_canonicalTable properties).bind fun _ =>
      (steady_canonicalOption items).bind fun _ =>
      (steady_canonicalAdditional additional).bind fun _ =>
      (steady_canonicalList allOf).bind fun _ =>
      (steady_canonicalList oneOf).bind fun _ =>
      (steady_canonicalList anyOf).bind fun _ =>
      (steady_canonicalOption negated).bind_pure
termination_by structural s

/-- The canonical form of a table of schemas does not depend on the count. -/
theorem steady_canonicalTable (t : List (String × Schema)) :
    Steady (canonicalTable t) := by
  match t with
  | [] => exact .pure []
  | (k, s) :: rest =>
    rw [canonicalTable]
    exact (steady_canonical s).bind fun _ =>
      (steady_canonicalTable rest).bind_pure
termination_by structural t

/-- The canonical form of a list of schemas does not depend on the count. -/
theorem steady_canonicalList (l : List Schema) : Steady (canonicalList l) := by
  match l with
  | [] => exact .pure []
  | s :: rest =>
    rw [canonicalList]
    exact (steady_canonical s).bind fun _ =>
      (steady_canonicalList rest).bind_pure
termination_by structural l

theorem steady_canonicalOption (o : Option Schema) :
    Steady (canonicalOption o) := by
  match o with
  | none => exact .pure none
  | some s => exact (steady_canonical s).bind_pure
termination_by structural o

/-- The canonical form of a setting for further properties does not depend on the
count. -/
theorem steady_canonicalAdditional (o : Option (Additional Schema)) :
    Steady (canonicalAdditional o) := by
  match o with
  | none => exact .pure none
  | some (.allowed b) => exact .pure _
  | some (.shaped s) => exact (steady_canonical s).bind_pure
termination_by structural o

end

/-- The canonical form of a schema. -/
def canonicalForm (s : Schema) : Schema :=
  (s.canonical 0).1

/-- The values of a table become their canonical forms, whatever has been
counted before. -/
theorem canonicalTable_fst (t : Table Schema) (n : Nat) :
    (canonicalTable t n).1 = t.mapValues canonicalForm := by
  induction t generalizing n with
  | nil => rfl
  | cons e rest ih =>
      obtain ⟨k, s⟩ := e
      rw [Table.mapValues_cons, ← ih (s.canonical n).2, canonicalForm,
        s.steady_canonical 0 n]
      rfl

end Schema

-- ========================================================= the other parts

open Schema (canonicalForm)

theorem Content.steady_canonical (c : Content) :
    Steady (Table.mapM MediaType.canonical c) := by
  refine .tableMapM (fun m => ?_) c
  exact .bind_pure (Schema.steady_canonicalOption m.schema)

theorem Parameter.steady_canonical (p : Referable Parameter) :
    Steady (p.mapM Parameter.canonical) := by
  refine .referable (fun p => ?_) p
  exact .bind_pure (Schema.steady_canonicalOption p.schema)

theorem RequestBody.steady_canonical (b : Referable RequestBody) :
    Steady (b.mapM RequestBody.canonical) := by
  refine .referable (fun b => ?_) b
  exact .bind_pure (Content.steady_canonical b.content)

theorem Response.steady_canonical (r : Referable Response) :
    Steady (r.mapM Response.canonical) := by
  refine .referable (fun r => ?_) r
  exact .bind_pure (Content.steady_canonical r.content)

theorem Operation.steady_canonical (o : Operation) : Steady o.canonical :=
  (Steady.mapM fun p _ => Parameter.steady_canonical p).bind fun _ =>
    (Steady.optionMapM RequestBody.steady_canonical o.body).bind fun _ =>
    (Steady.tableMapM Response.steady_canonical o.responses).bind_pure

theorem PathItem.steady_canonical (p : PathItem) : Steady p.canonical := by
  refine (Steady.mapM fun p _ => Parameter.steady_canonical p).bind fun _ => ?_
  exact .bind_pure (.mapM fun e _ => .bind_pure e.2.steady_canonical)

-- ============================================================= one key more

namespace Table

variable {α : Type} {k : String} {t : Table α}

/-- A new key stands in one place between the others. -/
theorem insert_split (hnew : ∀ e ∈ t, e.1 ≠ k) (a : α) :
    ∃ front back, t = front ++ back ∧ t.insert k a = front ++ (k, a) :: back := by
  induction t with
  | nil => exact ⟨[], [], rfl, rfl⟩
  | cons e rest ih =>
      obtain ⟨j, b⟩ := e
      have hjk : j ≠ k := hnew (j, b) (List.mem_cons_self ..)
      rw [insert]
      by_cases hlt : k < j
      · rw [if_pos hlt]
        exact ⟨[], (j, b) :: rest, rfl, rfl⟩
      · rw [if_neg hlt, if_neg (Ne.symm hjk)]
        obtain ⟨front, back, hrest, hinsert⟩ :=
          ih fun e he => hnew e (List.mem_cons_of_mem _ he)
        refine ⟨(j, b) :: front, back, ?_, ?_⟩
        · rw [hrest, List.cons_append]
        · rw [hinsert, List.cons_append]

/-- What a table binds is still bound when a new key is. -/
theorem subset_insert (hnew : ∀ e ∈ t, e.1 ≠ k) (a : α) :
    t ⊆ t.insert k a := by
  obtain ⟨front, back, ht, hinsert⟩ := insert_split hnew a
  intro e he
  rw [ht] at he
  rw [hinsert]
  rcases List.mem_append.1 he with he | he
  · exact List.mem_append_left _ he
  · exact List.mem_append_right _ (List.mem_cons_of_mem _ he)

end Table

/-- The components with one schema more. -/
def Components.withSchema (c : Components) (raw : String) (s : Schema) :
    Components :=
  { c with schemas := c.schemas.insert raw s }

/-- The document with one component schema more. -/
def Document.withSchema (d : Document) (raw : String) (s : Schema) : Document :=
  { d with components := some (d.shared.withSchema raw s) }

/-- Components with a new schema have the canonical form with its canonical form. -/
theorem Components.canonical_withSchema (c : Components) (raw : String)
    (s : Schema) (n n' : Nat) :
    ((c.withSchema raw s).canonical n).1
      = (c.canonical n').1.withSchema raw s.canonicalForm := by
  obtain ⟨m₁, m₂, m₃, m₄, hmore⟩ := (c.withSchema raw s).canonical_fst n
  obtain ⟨n₁, n₂, n₃, n₄, hc⟩ := c.canonical_fst n'
  rw [hmore, hc]
  simp only [withSchema, ← Schema.canonicalTable_eq, Schema.canonicalTable_fst,
    Table.insert_mapValues]
  congr 1
  · exact Steady.tableMapM Response.steady_canonical c.responses m₂ n₂
  · exact Steady.tableMapM Parameter.steady_canonical c.parameters m₃ n₃
  · exact Steady.tableMapM RequestBody.steady_canonical c.requestBodies m₄ n₄

/-- The component schemas of the canonical form are the canonical forms. -/
theorem Document.canonical_schemas (d : Document) :
    d.canonical.1.schemas = d.schemas.mapValues canonicalForm := by
  obtain ⟨n₁, _, _, hd⟩ := d.canonical_fst
  rw [hd]
  unfold schemas shared
  cases d.components with
  | none => rfl
  | some c =>
      obtain ⟨m₁, _, _, _, hc⟩ := c.canonical_fst n₁
      show ((c.canonical n₁).1).schemas = _
      rw [hc, ← Schema.canonicalTable_eq, Schema.canonicalTable_fst]
      rfl

/-- The canonical form of the larger document is the canonical form of the
document with that of the schema. -/
theorem Document.canonical_withSchema (d : Document) (raw : String)
    (s : Schema) :
    (d.withSchema raw s).canonical.1
      = d.canonical.1.withSchema raw s.canonicalForm := by
  obtain ⟨m₁, m₂, m₃, hmore⟩ := (d.withSchema raw s).canonical_fst
  obtain ⟨n₁, n₂, n₃, hd⟩ := d.canonical_fst
  have hshared : (Option.mapM Components.canonical d.components n₁).1.getD {}
      = (d.shared.canonical n₁).1 := by
    rw [shared]
    cases d.components with
    | none => rfl
    | some c => rfl
  have hcomponents :
      (Option.mapM Components.canonical (d.withSchema raw s).components m₁).1
        = some ((d.shared.canonical n₁).1.withSchema raw s.canonicalForm) :=
    congrArg some (d.shared.canonical_withSchema raw s m₁ n₁)
  have hpaths := Steady.optionMapM
    (Steady.tableMapM PathItem.steady_canonical) d.paths m₂ n₂
  have hwebhooks :=
    Steady.tableMapM PathItem.steady_canonical d.webhooks m₃ n₃
  rw [hmore, hcomponents, hd, ← hshared]
  unfold withSchema
  congr 1

end ApiForge
