import ApiForge.Proofs.Artifact.Shadow
import Mathlib.Data.List.Dedup
/-!
Which types a server defines twice.

The source of a server defines a struct and an enumeration for each operation,
and what it hoists out of their fields. `typesIn` finds the definitions among all
that is written. Hoisted shapes are given different names, whatever operation
they come from, and the names of requests and answers differ if those of the
operations do. But nothing keeps the two kinds apart: the names of requests and
answers are written without being taken. So a type is defined twice just when a
hoisted shape has the name of a request or of an answer
(`defines_twice_iff`), and then it is (`request_defined_twice`).
-/

namespace ApiForge

-- ============================================================= definitions

open Source (typesIn typeName?)

/-- The name of a definition that is a struct or an enumeration. -/
def Definition.typeName? (d : Definition) : Option String :=
  match d.body with
  | .alias _ => none
  | _ => some d.name

/-- A definition declares a type of its name, or none when it is an alias. -/
theorem Definition.typeName?_cases (d : Definition) :
    d.typeName? = some d.name ∨ d.typeName? = none := by
  unfold Definition.typeName?
  split
  · exact .inr rfl
  · exact .inl rfl

/-- The types read off the steps of a definition are the one that it declares. -/
theorem Definition.typesIn_steps (d : Definition) :
    typesIn d.steps = d.typeName?.toList := by
  cases hbody : d.body with
  | struct fields => simp [steps, hbody, structSteps, Definition.typeName?]
  | enumeration literals =>
      simp [steps, hbody, enumerationSteps, Definition.typeName?]
  | _ => simp [steps, hbody, Definition.typeName?]

namespace ServerModule

/-- The struct of a request declares one type. -/
theorem typesIn_requestSteps (p : OperationPlan) :
    typesIn (requestSteps p) = [p.name ++ "Request"] := by
  have hname : "pub struct " ++ p.name ++ "Request \x7b"
      = "pub struct " ++ (p.name ++ "Request") ++ " \x7b" := by
    simp only [String.append_assoc]
    rfl
  cases hbody : p.body <;> simp [requestSteps, hbody, hname]

theorem typesIn_responseSteps (p : OperationPlan) :
    typesIn (responseSteps p) = [p.name ++ "Response"] := by
  simp [responseSteps]

/-- A section defines its request and its answers, and what it hoists. -/
theorem typesIn_sectionSteps (s : ServerSection) :
    typesIn (sectionSteps s)
      = [s.plan.name ++ "Request", s.plan.name ++ "Response"]
        ++ s.hoisted.filterMap Definition.typeName? := by
  simp [sectionSteps, typesIn_requestSteps, typesIn_responseSteps,
    Definition.listSteps, Definition.typesIn_steps,
    List.filterMap_eq_flatMap_toList]

theorem typesIn_methodSteps (first : Bool) (p : OperationPlan) :
    typesIn (methodSteps first p) = [] := by
  cases first <;> cases hsummary : p.summary.or p.description <;>
    simp [methodSteps, hsummary]

theorem typesIn_handlerSteps (m : ServerModule) :
    typesIn (handlerSteps m) = [] := by
  simp [handlerSteps, typesIn_methodSteps]

theorem typesIn_routeSteps (p : OperationPlan) :
    typesIn (routeSteps p) = [] := by
  simp +decide [routeSteps]

theorem typesIn_routerSteps (m : ServerModule) :
    typesIn (routerSteps m) = [] := by
  cases hplans : m.plans.isEmpty <;>
    simp [routerSteps, typesIn_routeSteps, hplans]

/-- A parser declares no type. -/
theorem typesIn_parserSteps (p : OperationPlan) :
    typesIn (parserSteps p) = [] := by
  cases hbody : p.body with
  | none => simp [parserSteps, hbody]
  | some body =>
      obtain ⟨type, required⟩ := body
      cases required <;> simp [parserSteps, hbody]

/-- A server defines the types of its sections, and no others. -/
theorem typesIn_steps (m : ServerModule) :
    typesIn m.steps = m.sections.flatMap fun s =>
      [s.plan.name ++ "Request", s.plan.name ++ "Response"]
        ++ s.hoisted.filterMap Definition.typeName? := by
  simp [steps, typesIn_sectionSteps, typesIn_handlerSteps, typesIn_routerSteps,
    typesIn_parserSteps]

end ServerModule

-- ================================================================== names

/-- The names of the requests and answers of a document. -/
def Document.messageNames (d : Document) : List String :=
  d.operations.flatMap fun e => [e.name ++ "Request", e.name ++ "Response"]

namespace ServerModule

variable {c : Catalog} {m : ServerModule} {n : String}

/-- The structs and enumerations that a server defines for what it hoists. -/
def hoistedTypes (m : ServerModule) : List String :=
  m.sections.flatMap fun s => s.hoisted.filterMap Definition.typeName?

/-- The declared types stand in the order of the definitions. -/
theorem filterMap_typeName?_sublist (ds : List Definition) :
    (ds.filterMap Definition.typeName?).Sublist (ds.map (·.name)) := by
  induction ds with
  | nil => exact .slnil
  | cons d ds ih =>
      rw [List.map_cons]
      rcases d.typeName?_cases with hname | hname
      · rw [List.filterMap_cons_some hname]
        exact ih.cons_cons _
      · rw [List.filterMap_cons_none hname]
        exact ih.cons _

/-- All hoisted definitions, of whatever section, have different names. -/
theorem nodup_hoistedTypes (h : m.names.Nodup) : m.hoistedTypes.Nodup := by
  have hsub := filterMap_typeName?_sublist (m.sections.flatMap (·.hoisted))
  rw [List.filterMap_flatMap, List.map_flatMap] at hsub
  exact h.sublist hsub

/-- The types of a server are those of its requests and answers, and the hoisted
ones. -/
theorem typesIn_perm (hm : ofCatalog c = .ok m) :
    (typesIn m.steps).Perm (c.document.messageNames ++ m.hoistedTypes) := by
  have hmessages : c.document.messageNames
      = m.sections.flatMap fun s =>
        [s.plan.name ++ "Request", s.plan.name ++ "Response"] := by
    have hnames := congrArg
      (List.flatMap fun n : String => [n ++ "Request", n ++ "Response"])
      (sections_ofCatalog hm).1
    rw [List.flatMap_map, List.flatMap_map] at hnames
    exact hnames.symm
  rw [typesIn_steps, hmessages]
  exact (List.flatMap_append_perm ..).symm

/-- What is hoisted has a name that an operation offers. -/
theorem offered_of_hoistedTypes (hm : ofCatalog c = .ok m)
    (hn : n ∈ m.hoistedTypes) :
    ∃ e ∈ c.document.operations, ∃ q, e.Offers c.document q ∧ q.name = n := by
  obtain ⟨s, hs, hn⟩ := List.mem_flatMap.1 hn
  obtain ⟨d, hd, hname⟩ := List.mem_filterMap.1 hn
  have hsame : d.name = n := by
    rcases d.typeName?_cases with heq | heq
    · rw [heq] at hname
      exact Option.some.inj hname
    · rw [heq] at hname
      cases hname
  obtain ⟨e, he, q, hq, hoffered⟩ := (sections_ofCatalog hm).2 s hs d hd
  exact ⟨e, he, q, hq, hoffered.trans hsame⟩

/-- What can be computed of a server is found by planning it. -/
theorem eq_of_run {α : Type} [DecidableEq α] {d : Document}
    {f : ServerModule → α} {a : α} (hc : d.catalog = .ok c)
    (hm : ofCatalog c = .ok m)
    (hrun : d.catalog.toOption.any (fun c => (ofCatalog c).toOption.any
      fun m => decide (f m = a)) = true) : f m = a := by
  rw [hc, Except.toOption, Option.any_some, hm] at hrun
  exact of_decide_eq_true hrun

end ServerModule

/-- No request has the name of an answer. -/
theorem request_ne_response (a b : String) : a ++ "Request" ≠ b ++ "Response" := by
  intro heq
  have hlast := congrArg (fun s : String => s.toList.getLast?) heq
  simp at hlast

/-- Operations with different names have requests and answers with different
names. -/
theorem Document.nodup_messageNames {d : Document}
    (h : (d.operations.map Endpoint.name).Nodup) : d.messageNames.Nodup := by
  refine List.nodup_flatMap.2 ⟨fun e _ => ?_, ?_⟩
  · exact List.nodup_cons.2 ⟨fun hmem => request_ne_response _ _
      (List.mem_singleton.1 hmem), List.nodup_singleton _⟩
  · refine (List.pairwise_map.1 h).imp fun {e e'} hne n hn hn' => ?_
    simp only [List.mem_cons, List.not_mem_nil, or_false] at hn hn'
    rcases hn with rfl | rfl <;> rcases hn' with heq | heq
    · exact hne ((String.append_left_inj _).1 heq)
    · exact request_ne_response _ _ heq
    · exact request_ne_response _ _ heq.symm
    · exact hne ((String.append_left_inj _).1 heq)

-- ============================================================= main result

namespace Settings

/-- A server that is generated from a prepared document, whose operations have
different names, defines a type once if it has the name of a request or of an
answer, and once if it is hoisted out of an operation. So a name is defined twice
just when it is both. -/
theorem defines_twice_iff {d : Document} {p : Prepared}
    (h : d.prepare = .ok p) (hf : p.document.MapsFinitely)
    (hdistinct : (p.document.operations.map Document.Endpoint.name).Nodup) :
    ∃ c m, p.document.catalog = .ok c ∧ ServerModule.ofCatalog c = .ok m
      ∧ (∀ s : Settings, ∃ artifacts, s.generate p.document = .ok artifacts
          ∧ ∀ a ∈ artifacts, a.module = "server" →
            a.contents = Source.text (ServerModule.steps m))
      ∧ (∀ n, (typesIn (ServerModule.steps m)).count n
          = (if n ∈ p.document.messageNames then 1 else 0)
            + if n ∈ m.hoistedTypes then 1 else 0)
      ∧ ((typesIn (ServerModule.steps m)).Nodup
          ↔ ∀ n ∈ m.hoistedTypes, n ∉ p.document.messageNames)
      ∧ ∀ n ∈ m.hoistedTypes, ∃ e ∈ p.document.operations,
          ∃ q, e.Offers p.document q ∧ q.name = n := by
  have hd := Document.checked_of_prepare h
  obtain ⟨c, hc, hdocument, -⟩ := Document.catalog_ok hf
  have hmessages := Document.nodup_messageNames hdistinct
  rw [← hdocument] at hd hf
  obtain ⟨m, _, hm, hclosed, -⟩ := ServerModule.ofCatalog_ok hd hf
  obtain ⟨w, hw, -⟩ := WebhookModule.ofCatalog?_ok hd hf
  -- names of messages are different, and so are hoisted names, so a name occurs twice
  -- at most
  have hhoisted := ServerModule.nodup_hoistedTypes hclosed.nodup
  have hperm := ServerModule.typesIn_perm hm
  rw [hdocument] at hperm
  refine ⟨c, m, hc, hm, fun s => ?_, fun n => ?_, ?_, fun n hn => ?_⟩
  · obtain ⟨artifacts, hrun, hwrites⟩ := writes_generate hc hm hw s
    exact ⟨artifacts, hrun, fun a ha => (hwrites a ha).2.1⟩
  · rw [hperm.count_eq, List.count_append, hmessages.count, hhoisted.count]
  · rw [hperm.nodup_iff, List.nodup_append]
    refine ⟨fun ⟨_, _, hapart⟩ n hn hmem => hapart n hmem n hn rfl,
      fun hapart => ⟨hmessages, hhoisted, ?_⟩⟩
    rintro n hmem _ hn rfl
    exact hapart n hn hmem
  · rw [← hdocument]
    exact ServerModule.offered_of_hoistedTypes hm hn

-- a list of pets that is narrowed by a choice

/-- Lists the pets of one of two kinds, which is asked for in a parameter with the
given name. -/
def listOfKind (parameter : String) : Operation where
  parameters := [.inline
    { name := parameter, place := .query,
      schema := some { types := ["string"], literals := [.str "cat", .str "dog"] } }]
  responses := [("204", .inline { description := "Listed." })]

def shelter (parameter : String) : Document where
  openapi := "3.1.0"
  info := { title := "Shelter", version := "1" }
  paths := some
    [("/pets", PathItem.withOperation {} .get (some (listOfKind parameter)))]

/-- Asking for the kind under its own name defines three types. -/
theorem defines_twice_iff_shelter : ∃ p c m, (shelter "kind").prepare = .ok p
    ∧ p.document.MapsFinitely
    ∧ (p.document.operations.map Document.Endpoint.name).Nodup
    ∧ p.document.catalog = .ok c ∧ ServerModule.ofCatalog c = .ok m
    ∧ p.document.messageNames = ["GetPetsRequest", "GetPetsResponse"]
    ∧ m.hoistedTypes = ["GetPetsKind"]
    ∧ (typesIn (ServerModule.steps m)).Nodup := by
  obtain ⟨p, hp, hdocument, hfinite⟩ := Document.prepared_of_shapes
    (d := shelter "kind") 2 (by decide +kernel) (by decide +kernel)
  have hmessages : p.document.messageNames
      = ["GetPetsRequest", "GetPetsResponse"] := by
    rw [hdocument]
    decide +kernel
  have hdistinct :
      (p.document.operations.map Document.Endpoint.name).Nodup := by
    rw [hdocument]
    decide +kernel
  obtain ⟨c, m, hc, hm, -, -, hiff, -⟩ := defines_twice_iff hp hfinite hdistinct
  -- the plan is evaluated for the hoisted names only
  have hhoisted : m.hoistedTypes = ["GetPetsKind"] := by
    refine ServerModule.eq_of_run hc hm ?_
    rw [hdocument]
    decide +kernel
  refine ⟨p, c, m, hp, hfinite, hdistinct, hc, hm, hmessages, hhoisted,
    hiff.2 ?_⟩
  rw [hmessages, hhoisted]
  decide

/-- Asking for it under the name `request` defines the type of the request
twice. -/
theorem request_defined_twice : ∃ p c m,
    (shelter "request").prepare = .ok p
    ∧ p.document.MapsFinitely
    ∧ (p.document.operations.map Document.Endpoint.name).Nodup
    ∧ p.document.catalog = .ok c ∧ ServerModule.ofCatalog c = .ok m
    ∧ (typesIn (ServerModule.steps m)).Perm
      ["GetPetsRequest", "GetPetsResponse", "GetPetsRequest"]
    ∧ ¬ (typesIn (ServerModule.steps m)).Nodup := by
  obtain ⟨p, hp, hdocument, hfinite⟩ := Document.prepared_of_shapes
    (d := shelter "request") 2 (by decide +kernel) (by decide +kernel)
  have hmessages : p.document.messageNames
      = ["GetPetsRequest", "GetPetsResponse"] := by
    rw [hdocument]
    decide +kernel
  have hdistinct :
      (p.document.operations.map Document.Endpoint.name).Nodup := by
    rw [hdocument]
    decide +kernel
  have hd := Document.checked_of_prepare hp
  obtain ⟨c, m, _, hc, hm, -, -⟩ := planned hd hfinite
  have hhoisted : m.hoistedTypes = ["GetPetsRequest"] := by
    refine ServerModule.eq_of_run hc hm ?_
    rw [hdocument]
    decide +kernel
  -- the two messages, and the kind that takes the name of the first
  have hperm := ServerModule.typesIn_perm hm
  rw [Document.document_of_catalog hc, hmessages, hhoisted] at hperm
  refine ⟨p, c, m, hp, hfinite, hdistinct, hc, hm, hperm, ?_⟩
  rw [hperm.nodup_iff]
  decide

end Settings

end ApiForge
