import ApiForge.Artifact.Generate
import ApiForge.Proofs.Shape.Depth
/-!
Where generation reads a document, and that the reference check has been there.

# What the check covers

The reference check walks a document by its own lists; generation looks up
parameters, bodies and answers wherever it needs them. `Covered` is what the
two have in common: a part of the document whose schemas are roots of it, and
whose references are among those that the check resolves. It passes from the
tables of the document down to every schema that generation maps, and what a
covered entry holds, through however many pointers, is covered again
(`Covered.written`).

# Mapped schemas

`Mapped` lists the schemas that generation asks for a shape of. All are covered
(`Mapped.covered`), so under `MapsFinitely`, which gives each a shape at some
depth, generation finds the shape (`MapsFinitely.shape?`).
-/

namespace ApiForge

namespace Document

-- ============================================================= covered

/-- A part of a document: its schemas are roots, and the reference check sees
its references. -/
structure Covered {α : Type} (d : Document) (roots : α → List Schema)
    (occurrences : String → α → List Occurrence) (a : α) : Prop where
  roots : roots a ⊆ d.roots
  seen : ∃ location, occurrences location a ⊆ d.occurrences

variable {d : Document}

/-- What stands in a covered part is covered. -/
theorem Covered.inner {α β : Type} {rα : α → List Schema}
    {oα : String → α → List Occurrence} {rβ : β → List Schema}
    {oβ : String → β → List Occurrence} {a : α} {b : β}
    (h : Covered d rα oα a) (hr : rβ b ⊆ rα a)
    (ho : ∀ location, ∃ inner, oβ inner b ⊆ oα location a) :
    Covered d rβ oβ b := by
  obtain ⟨location, hseen⟩ := h.seen
  obtain ⟨inner, hinner⟩ := ho location
  exact ⟨List.Subset.trans hr h.roots, inner,
    List.Subset.trans hinner hseen⟩

/-- A schema of the document. -/
abbrev HasSchema (d : Document) : Schema → Prop :=
  Covered d (fun s => [s]) Schema.occurrences

/-- A parameter of the document, or a pointer to one. -/
abbrev HasParameter (d : Document) : Referable Parameter → Prop :=
  Covered d Parameter.roots Parameter.occurrences

/-- A request body of the document, or a pointer to one. -/
abbrev HasRequestBody (d : Document) : Referable RequestBody → Prop :=
  Covered d RequestBody.roots RequestBody.occurrences

/-- An answer of the document, or a pointer to one. -/
abbrev HasResponse (d : Document) : Referable Response → Prop :=
  Covered d Response.roots Response.occurrences

/-- An operation of the document. -/
abbrev HasOperation (d : Document) : Operation → Prop :=
  Covered d Operation.roots Operation.occurrences

/-- A path of the document, or a webhook. -/
abbrev HasItem (d : Document) : PathItem → Prop :=
  Covered d PathItem.roots PathItem.occurrences

-- =============================================================== tables

/-- The roots of a document, by its three tables. -/
theorem roots_eq (d : Document) :
    d.roots = d.shared.roots ++ (d.pathTable.flatMap (fun e => e.2.roots)
      ++ d.webhooks.flatMap fun e => e.2.roots) := by
  rw [roots, shared, pathTable, List.append_assoc]
  cases d.components <;> simp [Components.roots]

/-- The schemas among the components belong to the document. -/
theorem hasSchema_of_component {e : String × Schema} (he : e ∈ d.schemas) :
    d.HasSchema e.2 where
  roots := by
    intro s hs
    cases List.mem_singleton.1 hs
    simp only [roots_eq, Components.roots, List.append_assoc]
    exact List.mem_append_left _ (List.mem_map_of_mem he)
  seen := by
    refine ⟨"components.schemas." ++ e.1, fun o ho => ?_⟩
    simp only [occurrences, Components.occurrences, List.append_assoc]
    exact List.mem_append_left _ (List.mem_flatMap.2 ⟨e, he, ho⟩)

/-- The responses among the components belong to the document. -/
theorem hasResponse_of_component {e : String × Referable Response}
    (he : e ∈ d.shared.responses) : d.HasResponse e.2 where
  roots := by
    intro s hs
    simp only [roots_eq, Components.roots, List.append_assoc]
    exact List.mem_append_right _ (List.mem_append_left _
      (List.mem_flatMap.2 ⟨e, he, hs⟩))
  seen := by
    refine ⟨"components.responses." ++ e.1, fun o ho => ?_⟩
    simp only [occurrences, Components.occurrences, List.append_assoc]
    exact List.mem_append_right _ (List.mem_append_left _
      (List.mem_flatMap.2 ⟨e, he, ho⟩))

/-- The parameters among the components belong to the document. -/
theorem hasParameter_of_component {e : String × Referable Parameter}
    (he : e ∈ d.shared.parameters) : d.HasParameter e.2 where
  roots := by
    intro s hs
    simp only [roots_eq, Components.roots, List.append_assoc]
    exact List.mem_append_right _ (List.mem_append_right _
      (List.mem_append_left _ (List.mem_flatMap.2 ⟨e, he, hs⟩)))
  seen := by
    refine ⟨"components.parameters." ++ e.1, fun o ho => ?_⟩
    simp only [occurrences, Components.occurrences, List.append_assoc]
    exact List.mem_append_right _ (List.mem_append_right _
      (List.mem_append_left _ (List.mem_flatMap.2 ⟨e, he, ho⟩)))

/-- The bodies among the components belong to the document. -/
theorem hasRequestBody_of_component {e : String × Referable RequestBody}
    (he : e ∈ d.shared.requestBodies) : d.HasRequestBody e.2 where
  roots := by
    intro s hs
    simp only [roots_eq, Components.roots, List.append_assoc]
    exact List.mem_append_right _ (List.mem_append_right _
      (List.mem_append_right _ (List.mem_append_left _
        (List.mem_flatMap.2 ⟨e, he, hs⟩))))
  seen := by
    refine ⟨"components.requestBodies." ++ e.1, fun o ho => ?_⟩
    simp only [occurrences, Components.occurrences, List.append_assoc]
    exact List.mem_append_right _ (List.mem_append_right _
      (List.mem_append_right _ (List.mem_append_left _
        (List.mem_flatMap.2 ⟨e, he, ho⟩))))

/-- The items under the paths belong to the document. -/
theorem hasItem_of_path {e : String × PathItem} (he : e ∈ d.pathTable) :
    d.HasItem e.2 where
  roots := by
    intro s hs
    rw [roots_eq]
    exact List.mem_append_right _ (List.mem_append_left _
      (List.mem_flatMap.2 ⟨e, he, hs⟩))
  seen := by
    refine ⟨e.1, fun o ho => ?_⟩
    rw [occurrences, List.append_assoc]
    exact List.mem_append_right _ (List.mem_append_left _
      (List.mem_flatMap.2 ⟨e, he, ho⟩))

/-- The items under the webhooks belong to the document. -/
theorem hasItem_of_webhook {e : String × PathItem} (he : e ∈ d.webhooks) :
    d.HasItem e.2 where
  roots := by
    intro s hs
    rw [roots_eq]
    exact List.mem_append_right _ (List.mem_append_right _
      (List.mem_flatMap.2 ⟨e, he, hs⟩))
  seen := by
    refine ⟨"webhook " ++ e.1, fun o ho => ?_⟩
    rw [occurrences, List.append_assoc]
    exact List.mem_append_right _ (List.mem_append_right _
      (List.mem_flatMap.2 ⟨e, he, ho⟩))

-- =========================================================== operations

/-- The references of a parameter are among those of its list. -/
theorem occurrences_parameter {ps : List (Referable Parameter)}
    {p : Referable Parameter} (hp : p ∈ ps) (location : String) :
    ∃ inner, Parameter.occurrences inner p
      ⊆ Parameter.occurrencesInList location ps := by
  obtain ⟨i, hi⟩ := List.mem_iff_getElem?.1 hp
  refine ⟨location ++ " parameter #" ++ toString i, fun o ho => ?_⟩
  exact List.mem_flatMap.2 ⟨(p, i), List.mem_zipIdx_iff_getElem?.2 hi, ho⟩

variable {item : PathItem} {o : Operation} {verb : Verb}

/-- With an item, all its operations belong to the document. -/
theorem Covered.operation (h : d.HasItem item)
    (ho : (verb, o) ∈ item.operations) : d.HasOperation o := by
  refine h.inner ?_ fun location => ⟨verb.name ++ " " ++ location, ?_⟩
  · intro s hs
    exact List.mem_append_right _ (List.mem_flatMap.2 ⟨(verb, o), ho, hs⟩)
  · intro x hx
    exact List.mem_append_right _ (List.mem_flatMap.2 ⟨(verb, o), ho, hx⟩)

/-- With an item, the parameters of all its operations belong to the document. -/
theorem Covered.itemParameter (h : d.HasItem item) {p : Referable Parameter}
    (hp : p ∈ item.parameters) : d.HasParameter p := by
  refine h.inner ?_ fun location => ?_
  · intro s hs
    exact List.mem_append_left _ (List.mem_flatMap.2 ⟨p, hp, hs⟩)
  · obtain ⟨inner, hinner⟩ := occurrences_parameter hp location
    exact ⟨inner, List.subset_append_of_subset_left _ hinner⟩

/-- With an operation, its own parameters belong to the document. -/
theorem Covered.parameter (h : d.HasOperation o) {p : Referable Parameter}
    (hp : p ∈ o.parameters) : d.HasParameter p := by
  refine h.inner ?_ fun location => ?_
  · intro s hs
    rw [Operation.roots, List.append_assoc]
    exact List.mem_append_left _ (List.mem_flatMap.2 ⟨p, hp, hs⟩)
  · obtain ⟨inner, hinner⟩ := occurrences_parameter hp location
    rw [Operation.occurrences, List.append_assoc]
    exact ⟨inner, List.subset_append_of_subset_left _ hinner⟩

/-- With an operation, its body belongs to the document. -/
theorem Covered.body (h : d.HasOperation o) {b : Referable RequestBody}
    (hb : o.body = some b) : d.HasRequestBody b := by
  refine h.inner ?_ fun location => ⟨location ++ " request body", ?_⟩
  · intro s hs
    rw [Operation.roots, List.append_assoc, hb]
    exact List.mem_append_right _ (List.mem_append_left _
      (List.mem_flatMap.2 ⟨b, List.mem_singleton_self b, hs⟩))
  · intro x hx
    rw [Operation.occurrences, List.append_assoc, hb]
    exact List.mem_append_right _ (List.mem_append_left _ hx)

/-- With an operation, its responses belong to the document. -/
theorem Covered.response (h : d.HasOperation o)
    {e : String × Referable Response} (he : e ∈ o.responses) :
    d.HasResponse e.2 := by
  refine h.inner ?_ fun location => ⟨location ++ " response " ++ e.1, ?_⟩
  · intro s hs
    exact List.mem_append_right _ (List.mem_flatMap.2 ⟨e, he, hs⟩)
  · intro x hx
    exact List.mem_append_right _ (List.mem_flatMap.2 ⟨e, he, hx⟩)

/-- An operation of the document stands under its verb in an item of the path
table. -/
theorem mem_operations {e : Endpoint} (he : e ∈ d.operations) :
    (e.path, e.item) ∈ d.pathTable
      ∧ (e.verb, e.operation) ∈ e.item.operations := by
  obtain ⟨⟨path, item⟩, hitem, he⟩ := List.mem_flatMap.1 he
  obtain ⟨⟨verb, o⟩, ho, rfl⟩ := List.mem_map.1 he
  exact ⟨hitem, ho⟩

/-- The parameters that an operation merges are covered. -/
theorem hasParameter_of_operation {e : Endpoint} (he : e ∈ d.operations)
    {p : Referable Parameter}
    (hp : p ∈ e.item.parameters ++ e.operation.parameters) :
    d.HasParameter p := by
  obtain ⟨hitem, ho⟩ := mem_operations he
  have hcovered := hasItem_of_path hitem
  rcases List.mem_append.1 hp with hp | hp
  · exact hcovered.itemParameter hp
  · exact (hcovered.operation ho).parameter hp

theorem hasOperation_of_path {e : Endpoint} (he : e ∈ d.operations) :
    d.HasOperation e.operation :=
  (hasItem_of_path (mem_operations he).1).operation (mem_operations he).2

-- ============================================================= entries

/-- What an entry holds, where a pointer has been followed. -/
def Held {α : Type} (resolve : String → Except ResolveError α) :
    Referable α → α → Prop
  | .inline b, a => b = a
  | .pointer p, a => resolve p = .ok a

section

variable {α : Type} {kind : EntryKind} {inner : String → α → List Occurrence}
  {roots : Referable α → List Schema}
  {resolve : String → Except ResolveError α} {component : α → Component}

/-- An entry holds one thing at most. -/
theorem Held.unique {e : Referable α} {a b : α} (ha : Held resolve e a)
    (hb : Held resolve e b) : a = b := by
  cases e with
  | inline x => exact Eq.trans (Eq.symm ha) hb
  | pointer p => exact Except.ok.inj (Eq.trans (Eq.symm ha) hb)

/-- A covered entry of a checked document holds something: if it is a pointer,
the check has found a component of the kind that its place asks for, and
`resolve` answers just these. -/
theorem Checked.held (hd : d.Checked)
    (hresolve : ∀ p a,
      resolve p = .ok a ↔ ∃ address, Leads d p ⟨address, component a⟩)
    (hkind : ∀ c : Component, c.kind = kind → ∃ a, c = component a)
    {e : Referable α}
    (h : Covered d roots (Referable.occurrences kind inner) e) :
    ∃ a, Held resolve e a := by
  cases e with
  | inline a => exact ⟨a, rfl⟩
  | pointer p =>
      obtain ⟨location, hseen⟩ := h.seen
      obtain ⟨⟨address, c⟩, hleads, hc⟩ :=
        hd ⟨location, kind, p⟩ (hseen (List.mem_singleton_self _))
      obtain ⟨a, rfl⟩ := hkind c hc
      exact ⟨a, (hresolve p a).2 ⟨address, hleads⟩⟩

/-- What a covered entry holds is covered where it is written out: there, or
among the components. -/
theorem Covered.written {occurrences : String → Referable α → List Occurrence}
    (hresolve : ∀ p a,
      resolve p = .ok a ↔ ∃ address, Leads d p ⟨address, component a⟩)
    (hcomponent : ∀ address a, d.Holds address (component a) →
      Covered d roots occurrences (.inline a))
    {e : Referable α} (h : Covered d roots occurrences e) {a : α}
    (ha : Held resolve e a) : Covered d roots occurrences (.inline a) := by
  cases e with
  | inline b =>
      cases ha
      exact h
  | pointer p =>
      obtain ⟨address, hleads⟩ := (hresolve p a).1 ha
      exact hcomponent address.name a hleads.holds

end

/-- A parameter of a checked document is found. -/
theorem Checked.parameter (hd : d.Checked) {e : Referable Parameter}
    (h : d.HasParameter e) : ∃ p, Held d.resolveParameter e p := by
  refine hd.held (fun _ _ => resolveParameter_eq_ok_iff) (fun c hc => ?_) h
  cases c with
  | parameter p => exact ⟨p, rfl⟩
  | _ => cases hc

/-- A request body of a checked document is found. -/
theorem Checked.requestBody (hd : d.Checked) {e : Referable RequestBody}
    (h : d.HasRequestBody e) : ∃ b, Held d.resolveRequestBody e b := by
  refine hd.held (fun _ _ => resolveRequestBody_eq_ok_iff) (fun c hc => ?_) h
  cases c with
  | requestBody b => exact ⟨b, rfl⟩
  | _ => cases hc

/-- An answer of a checked document is found. -/
theorem Checked.response (hd : d.Checked) {e : Referable Response}
    (h : d.HasResponse e) : ∃ r, Held d.resolveResponse e r := by
  refine hd.held (fun _ _ => resolveResponse_eq_ok_iff) (fun c hc => ?_) h
  cases c with
  | response r => exact ⟨r, rfl⟩
  | _ => cases hc

/-- The schema of a parameter that an entry holds is covered. -/
theorem Covered.parameterSchema {e : Referable Parameter}
    (h : d.HasParameter e) {p : Parameter} (hp : Held d.resolveParameter e p)
    {s : Schema} (hs : p.schema = some s) : d.HasSchema s := by
  have hwritten : d.HasParameter (.inline p) :=
    h.written (fun _ _ => resolveParameter_eq_ok_iff)
      (fun _ _ => hasParameter_of_component) hp
  refine hwritten.inner ?_ fun location => ⟨location, ?_⟩
  · intro x hx
    cases List.mem_singleton.1 hx
    simp [Parameter.roots, Referable.roots, hs]
  · intro o ho
    simp only [Parameter.occurrences, Referable.occurrences, hs]
    exact ho

/-- The JSON form of a body is one of its forms. -/
theorem mem_of_json? {c : Content} {m : MediaType}
    (h : c.json? = some m) : ∃ e ∈ c, e.2 = m := by
  have hfind {p : String × MediaType → Bool}
      (h : (c.find? p).map (·.2) = some m) : ∃ e ∈ c, e.2 = m := by
    obtain ⟨e, he, hm⟩ := Option.map_eq_some_iff.1 h
    exact ⟨e, List.mem_of_find?_eq_some he, hm⟩
  simp only [Content.json?, Option.orElse_eq_orElse, Option.orElse_eq_or,
    Option.or_eq_some_iff] at h
  rcases h with h | ⟨-, h | ⟨-, h⟩⟩
  · exact ⟨_, Table.mem_of_get? h, rfl⟩
  · exact hfind h
  · exact hfind h

/-- The schema of the JSON form of a covered body is covered. -/
theorem Covered.mediaSchema {c : Content}
    (h : Covered d Content.roots Content.occurrences c) {m : MediaType}
    (hm : c.json? = some m) {s : Schema} (hs : m.schema = some s) :
    d.HasSchema s := by
  obtain ⟨e, he, rfl⟩ := mem_of_json? hm
  refine h.inner ?_ fun location => ⟨location, ?_⟩
  · intro x hx
    cases List.mem_singleton.1 hx
    exact List.mem_flatMap.2 ⟨e, he, by simp [hs]⟩
  · intro o ho
    refine List.mem_flatMap.2 ⟨e, he, ?_⟩
    show o ∈ Schema.occurrencesInOption location e.2.schema
    rw [hs]
    exact ho

/-- The content of a request body that an entry holds is covered. -/
theorem Covered.bodyContent {e : Referable RequestBody}
    (h : d.HasRequestBody e) {b : RequestBody}
    (hb : Held d.resolveRequestBody e b) :
    Covered d Content.roots Content.occurrences b.content := by
  have hwritten : d.HasRequestBody (.inline b) :=
    h.written (fun _ _ => resolveRequestBody_eq_ok_iff)
      (fun _ _ => hasRequestBody_of_component) hb
  exact hwritten.inner (List.Subset.refl _) fun location =>
    ⟨location, List.Subset.refl _⟩

/-- The content of an answer that an entry holds is covered. -/
theorem Covered.responseContent {e : Referable Response}
    (h : d.HasResponse e) {r : Response} (hr : Held d.resolveResponse e r) :
    Covered d Content.roots Content.occurrences r.content := by
  have hwritten : d.HasResponse (.inline r) :=
    h.written (fun _ _ => resolveResponse_eq_ok_iff)
      (fun _ _ => hasResponse_of_component) hr
  exact hwritten.inner (List.Subset.refl _) fun location =>
    ⟨location, List.Subset.refl _⟩

-- ====================================================== merged parameters

/-- Putting a parameter to others adds none but itself. -/
theorem mem_put {p q : Parameter} {l : List Parameter}
    (h : q ∈ Parameter.put p l) : q = p ∨ q ∈ l := by
  induction l with
  | nil => exact .inl (List.mem_singleton.1 h)
  | cons r rest ih =>
      rw [Parameter.put] at h
      split at h
      · exact (List.mem_cons.1 h).imp_right (List.mem_cons_of_mem _)
      · rcases List.mem_cons.1 h with rfl | h
        · exact .inr (List.mem_cons_self ..)
        · exact (ih h).imp_right (List.mem_cons_of_mem _)

/-- A merged parameter is one from before or is held by an entry. -/
theorem held_of_mergeFrom {context : String} {i : Nat}
    {merged ps : List Parameter} {entries : List (Referable Parameter)}
    (h : Parameter.mergeFrom d context i merged entries = .ok ps)
    {p : Parameter} (hp : p ∈ ps) :
    p ∈ merged ∨ ∃ e ∈ entries, Held d.resolveParameter e p := by
  induction entries generalizing i merged with
  | nil =>
      rw [Parameter.mergeFrom] at h
      cases h
      exact .inl hp
  | cons e rest ih =>
      -- what an entry holds is put among the parameters in either form of the entry
      have hput {q : Parameter} (hq : Held d.resolveParameter e q)
          (h : Parameter.mergeFrom d context (i + 1)
            (Parameter.put q merged) rest = .ok ps) :
          p ∈ merged ∨ ∃ e' ∈ e :: rest, Held d.resolveParameter e' p := by
        rcases ih h with hmem | ⟨e', he', hheld⟩
        · rcases mem_put hmem with rfl | hmem
          · exact .inr ⟨e, List.mem_cons_self .., hq⟩
          · exact .inl hmem
        · exact .inr ⟨e', List.mem_cons_of_mem _ he', hheld⟩
      cases e with
      | inline q => exact hput rfl h
      | pointer target =>
          rw [Parameter.mergeFrom] at h
          split at h
          · rename_i q hq
            exact hput hq h
          · cases h

/-- Parameters are merged if every entry holds one. -/
theorem mergeFrom_ok {context : String} {i : Nat} {merged : List Parameter}
    {entries : List (Referable Parameter)}
    (h : ∀ e ∈ entries, ∃ p, Held d.resolveParameter e p) :
    ∃ ps, Parameter.mergeFrom d context i merged entries = .ok ps := by
  induction entries generalizing i merged with
  | nil => exact ⟨merged, rfl⟩
  | cons e rest ih =>
      have hrest := fun e' he' => h e' (List.mem_cons_of_mem _ he')
      cases e with
      | inline q => exact ih hrest
      | pointer target =>
          obtain ⟨p, hp⟩ := h _ (List.mem_cons_self ..)
          have htarget : d.resolveParameter target = .ok p := hp
          rw [Parameter.mergeFrom, htarget]
          exact ih hrest

/-- The parameters of an operation of a checked document are merged. -/
theorem Checked.merged (hd : d.Checked) {e : Endpoint}
    (he : e ∈ d.operations) (context : String) :
    ∃ ps, Parameter.merged d e.item e.operation context = .ok ps :=
  mergeFrom_ok fun _ hp => hd.parameter (hasParameter_of_operation he hp)

-- ====================================================== mapped schemas

/-- The schemas that generation asks for a shape of: those of the components,
of the parameters that requests are read from, of the JSON bodies, of the JSON
answers that have a body, and of the payloads of webhooks. -/
inductive Mapped (d : Document) : Schema → Prop
  | component {e : String × Schema} : e ∈ d.schemas → Mapped d e.2
  | parameter {e : Endpoint} {context : String} {ps : List Parameter}
      {p : Parameter} {required : Bool} {s : Schema} :
      e ∈ d.operations →
      Parameter.merged d e.item e.operation context = .ok ps → p ∈ ps →
      RequestField.requiredIn p = some required → p.schema = some s →
      Mapped d s
  | body {e : Endpoint} {entry : Referable RequestBody} {b : RequestBody}
      {m : MediaType} {s : Schema} :
      e ∈ d.operations → e.operation.body = some entry →
      Held d.resolveRequestBody entry b → b.content.json? = some m →
      m.schema = some s → Mapped d s
  | response {e : Endpoint} {answer : String × Referable Response}
      {status : Nat} {r : Response} {m : MediaType} {s : Schema} :
      e ∈ d.operations → answer ∈ e.operation.responses →
      ResponseVariant.statusOf? answer.1 = some status → status ≠ 204 →
      Held d.resolveResponse answer.2 r → r.content.json? = some m →
      m.schema = some s → Mapped d s
  | payload {webhook : String × PathItem} {delivery : Verb × Operation}
      {entry : Referable RequestBody} {b : RequestBody} {m : MediaType}
      {s : Schema} :
      webhook ∈ d.webhooks → delivery ∈ webhook.2.operations →
      delivery.2.body = some entry →
      Held d.resolveRequestBody entry b → b.content.json? = some m →
      m.schema = some s → Mapped d s

/-- Mapping ends on every schema that generation maps. -/
def MapsFinitely (d : Document) : Prop :=
  ∀ s, d.Mapped s → ∃ depth, (d.shapeWithin? depth s).isSome

variable {s : Schema}

/-- The reference check covers every schema that generation maps. -/
theorem Mapped.covered (h : d.Mapped s) : d.HasSchema s := by
  cases h with
  | component he => exact hasSchema_of_component he
  | @parameter e _ _ p _ _ he hmerged hp _ hs =>
      rcases held_of_mergeFrom hmerged hp with hnil | ⟨entry, hentry, hheld⟩
      · exact absurd hnil List.not_mem_nil
      · exact (hasParameter_of_operation he hentry).parameterSchema hheld hs
  | body he hb hheld hm hs =>
      exact (((hasOperation_of_path he).body hb).bodyContent hheld).mediaSchema
        hm hs
  | response he hr _ _ hheld hm hs =>
      exact (((hasOperation_of_path he).response hr).responseContent
        hheld).mediaSchema hm hs
  | payload hw ho hb hheld hm hs =>
      exact ((((hasItem_of_webhook hw).operation ho).body hb).bodyContent
        hheld).mediaSchema hm hs

/-- A mapped schema is a node of the document. -/
theorem Mapped.mem_nodes (h : d.Mapped s) : s ∈ d.nodes :=
  List.mem_flatMap.2 ⟨s, h.covered.roots (List.mem_singleton_self s),
    Schema.mem_nodes_self s⟩

/-- The shape of a mapped schema is found if mapping ends. -/
theorem MapsFinitely.shape? (hd : d.MapsFinitely) (h : d.Mapped s) :
    ∃ shape, d.shape? s = some shape := by
  obtain ⟨depth, hdepth⟩ := hd s h
  obtain ⟨shape, hshape⟩ := Option.isSome_iff_exists.1 hdepth
  exact ⟨shape, (shape?_eq_some_iff h.mem_nodes).2 ⟨depth, hshape⟩⟩

/-- Mapping ends if it does on every root of the document. -/
theorem mapsFinitely_of_roots {depth : Nat}
    (h : ∀ s ∈ d.roots, (d.shapeWithin? depth s).isSome) : d.MapsFinitely :=
  fun s hs => ⟨depth, h s (hs.covered.roots (List.mem_singleton_self s))⟩

-- =========================================================== preparation

/-- Preparing a document brings it into canonical form. -/
theorem document_of_prepare {p : Prepared} (h : d.prepare = .ok p) :
    p.document = d.canonical.1 := by
  have hpreparation : d.preparation.document = d.canonical.1 := by
    unfold preparation
    cases d.canonical with
    | mk canonical count =>
        dsimp only
        cases canonical.validate <;> rfl
  unfold prepare at h
  dsimp only at h
  cases hr : d.preparation.references with
  | error e => rw [hr] at h; cases h
  | ok n =>
      rw [hr] at h
      cases h
      exact hpreparation

/-- Every reference of a prepared document leads to a component of its kind. -/
theorem checked_of_prepare {p : Prepared} (h : d.prepare = .ok p) :
    p.document.Checked := by
  unfold prepare preparation at h
  cases hc : d.canonical with
  | mk canonical count =>
      rw [hc] at h
      dsimp only at h
      cases hv : canonical.validate with
      | error e => rw [hv] at h; cases h
      | ok _ =>
          rw [hv] at h
          dsimp only at h
          cases hr : Resolver.checkReferences canonical [] with
          | mk answer known =>
              rw [hr] at h
              cases answer with
              | error e => cases h
              | ok n =>
                  cases h
                  refine checkReferences_ok
                    (fun b hb => absurd hb List.not_mem_nil) (n := n) ?_
                  rw [hr]

end Document

end ApiForge
