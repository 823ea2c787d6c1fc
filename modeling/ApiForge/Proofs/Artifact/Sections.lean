import ApiForge.Proofs.Artifact.Generate
import ApiForge.Proofs.Outcome
/-!
What the sections of a server are planned from.

`Planned` says once what planning an operation gives: its request fields are those
of the merged parameters that a request is read from, each named by its wire name
and its number, it has a body if it takes one in JSON, and its variants are those
of the answers whose keys stand for a status code. A server has one plan for each
operation of the document, in order (`forall₂_plans`). For a prepared document on
which mapping ends there is such a server, and the request and the answers of every
plan stand in its source (`exists_server`).
-/

namespace ApiForge

open Document (Held)

-- ================================================ statement vocabulary

/-- The identifiers of the fields for parameters, which are numbered from `i`
on. -/
def Parameter.fieldNames (i : Nat) (ps : List Parameter) : List String :=
  (ps.zipIdx i).filterMap fun (p, j) =>
    (RequestField.requiredIn p).map fun _ => RequestField.identOf p.name j

/-- The operation takes a body in JSON. -/
def Operation.TakesJson (d : Document) (o : Operation) : Prop :=
  ∃ entry b m, o.body = some entry ∧ Held d.resolveRequestBody entry b
    ∧ b.content.json? = some m

/-- The names and status codes of the variants for answers. -/
def Response.variants (answers : Table (Referable Response)) :
    List (String × Nat) :=
  answers.filterMap fun answer =>
    (ResponseVariant.statusOf? answer.1).map fun status =>
      ("Status" ++ ResponseVariant.upperKey answer.1, status)

/-- What the plan of an operation has from the document. -/
structure OperationPlan.Planned (d : Document) (e : Document.Endpoint)
    (p : OperationPlan) : Prop where
  route : (p.verb, p.path) = (e.verb, e.path)
  name : p.name = Identifier.operationName e.verb e.path e.operation.id
  parameters : ∃ ps,
    Parameter.merged d e.item e.operation (e.verb.name ++ " " ++ e.path) = .ok ps
      ∧ p.parameters.map (·.ident) = Parameter.fieldNames 0 ps
  body : p.body.isSome ↔ e.operation.TakesJson d
  variants : p.variants.map (fun v => (v.name, v.status))
    = Response.variants e.operation.responses

-- ================================================================ planning

namespace OperationPlan

open Planning

variable {α : Type} {c : Catalog} {d : Document}

/-- A reference that is followed gives what is held in its place. -/
theorem yields_target (context : String)
    (resolve : String → Except ResolveError α) (e : Referable α) :
    Yields (target context resolve e) (Held resolve e) := by
  cases e with
  | inline a => exact .pure rfl
  | pointer p =>
      rw [target]
      cases hp : resolve p with
      | ok a => exact .pure hp
      | error e => exact .throw _

/-- The fields of a request are named after its parameters, in order. -/
theorem yields_planParameters (name : String) (i : Nat) (ps : List Parameter) :
    Yields (planParameters c name i ps) fun fields =>
      fields.map (·.ident) = Parameter.fieldNames i ps := by
  induction ps generalizing i with
  | nil => exact .pure rfl
  | cons p rest ih =>
      rw [planParameters_cons, Parameter.fieldNames, List.zipIdx_cons]
      cases hrequired : RequestField.requiredIn p with
      | none =>
          rw [List.filterMap_cons_none (by simp [hrequired])]
          exact ih (i + 1)
      | some required =>
          rw [List.filterMap_cons_some (by simp [hrequired]; rfl)]
          refine .skip fun shape => .skip fun type => ?_
          refine (ih (i + 1)).bind fun fields hfields => .pure ?_
          rw [List.map_cons, hfields]
          rfl

/-- A body is planned exactly when the operation takes JSON. -/
theorem yields_planBody (context name : String) (o : Operation) :
    Yields (planBody c context name o.body) fun planned =>
      planned.isSome ↔ o.TakesJson c.document := by
  cases hbody : o.body with
  | none =>
      refine .pure (iff_of_false Bool.false_ne_true ?_)
      rintro ⟨entry, -, -, hentry, -⟩
      rw [hbody] at hentry
      cases hentry
  | some entry =>
      rw [planBody]
      refine (yields_target _ _ _).bind fun b hb => ?_
      cases hjson : b.content.json? with
      | none =>
          refine .pure (iff_of_false Bool.false_ne_true ?_)
          rintro ⟨entry', b', m, hentry, hb', hm⟩
          cases hbody.symm.trans hentry
          rw [hb.unique hb', hm] at hjson
          cases hjson
      | some m =>
          refine .skip fun shape => .skip fun type => .pure ?_
          exact iff_of_true rfl ⟨entry, b, m, hbody, hb, hjson⟩

/-- The variants of a response are those of its answers, in order. -/
theorem yields_planVariants (context name : String)
    (answers : Table (Referable Response)) :
    Yields (planVariants c context name answers) fun variants =>
      variants.map (fun v => (v.name, v.status)) = Response.variants answers := by
  induction answers with
  | nil => exact .pure rfl
  | cons e rest ih =>
      obtain ⟨key, entry⟩ := e
      rw [planVariants_cons, Response.variants]
      cases hstatus : ResponseVariant.statusOf? key with
      | none =>
          rw [List.filterMap_cons_none (by rw [hstatus]; rfl)]
          exact ih
      | some status =>
          rw [List.filterMap_cons_some (by rw [hstatus]; rfl)]
          refine .skip fun r => .skip fun body => ?_
          refine ih.bind fun variants hvariants => .pure ?_
          rw [List.map_cons, hvariants]
          rfl

/-- The plan of an operation is planned as its document says. -/
theorem yields_ofEndpoint (e : Document.Endpoint) :
    Yields (ofEndpoint c e) (Planned c.document e) := by
  rw [ofEndpoint]
  split
  · rename_i ps hmerged
    refine .bind (P := fun merged => merged = ps) (.pure rfl) ?_
    rintro _ rfl
    refine (yields_planParameters _ 0 _).bind fun fields hfields => ?_
    refine (yields_planBody _ _ _).bind fun body hbody => ?_
    refine (yields_planVariants _ _ _).bind fun variants hvariants => .pure ?_
    exact ⟨rfl, rfl, ⟨_, hmerged, hfields⟩, hbody, hvariants⟩
  · exact .bind (P := fun _ => False) (.throw _) fun _ hfalse => hfalse.elim

end OperationPlan

namespace ServerModule

variable {c : Catalog} {m : ServerModule}

/-- There is one section for each operation, in order. -/
theorem yields_planSections (es : List Document.Endpoint) :
    Yields (planSections c es) fun sections =>
      List.Forall₂ (OperationPlan.Planned c.document) es
        (sections.map (·.plan)) := by
  induction es with
  | nil => exact .pure .nil
  | cons e es ih =>
      refine (OperationPlan.yields_ofEndpoint e).bind fun plan hplan => ?_
      refine .skip fun hoisted => ih.bind fun sections hsections => .pure ?_
      exact .cons hplan hsections

/-- A server has the plans of the operations of the document, in order. -/
theorem forall₂_plans (h : ofCatalog c = .ok m) :
    List.Forall₂ (OperationPlan.Planned c.document) c.document.operations
      m.plans := by
  rw [ofCatalog] at h
  cases hrun : (planSections c c.document.operations).run {} with
  | error e => rw [hrun] at h; cases h
  | ok r =>
      rw [hrun] at h
      cases h
      exact yields_planSections _ {} r.1 r.2 hrun

/-- The request and the answers of every plan stand in the source. -/
theorem infix_of_mem_plans {plan : OperationPlan} (h : plan ∈ m.plans) :
    requestSteps plan <:+: m.steps ∧ responseSteps plan <:+: m.steps := by
  obtain ⟨s, hs, rfl⟩ := List.mem_map.1 h
  have hsection : sectionSteps s <:+: m.steps := by
    have hall : m.sections.flatMap sectionSteps <:+: m.steps :=
      List.infix_of_mem_flatten (by simp)
    refine List.IsInfix.trans ?_ hall
    exact List.infix_of_mem_flatten (List.mem_map_of_mem hs)
  have hpart {steps : List Source.Step}
      (hmem : (.blank :: steps) ∈ [.blank :: requestSteps s.plan,
        .blank :: responseSteps s.plan, Definition.listSteps s.hoisted]) :
      steps <:+: m.steps := by
    refine List.IsInfix.trans ?_ hsection
    exact (List.suffix_cons _ steps).isInfix.trans
      (List.infix_of_mem_flatten hmem)
  exact ⟨hpart (by simp), hpart (by simp)⟩

end ServerModule

-- ================================================================ serving

/-- For a prepared document on which mapping ends a server is generated, with
the plans of its operations, and the request and the answers of every plan stand
in its source. -/
theorem Document.exists_server {d : Document} {p : Prepared} (h : d.prepare = .ok p)
    (hf : p.document.MapsFinitely) :
    ∃ c m, p.document.catalog = .ok c ∧ ServerModule.ofCatalog c = .ok m
      ∧ (∀ s : Settings, ∃ artifacts, s.generate p.document = .ok artifacts
          ∧ ⟨"server", Source.text m.steps⟩ ∈ artifacts)
      ∧ List.Forall₂ (fun e plan =>
          OperationPlan.Planned p.document e plan
            ∧ ServerModule.requestSteps plan <:+: m.steps
            ∧ ServerModule.responseSteps plan <:+: m.steps)
          p.document.operations m.plans := by
  have hd := Document.checked_of_prepare h
  obtain ⟨c, hc, hdocument, -⟩ := Document.catalog_ok hf
  rw [← hdocument] at hd hf
  obtain ⟨m, -, hm, -⟩ := ServerModule.ofCatalog_ok hd hf
  obtain ⟨w, hw, -⟩ := WebhookModule.ofCatalog?_ok hd hf
  have hplans := ServerModule.forall₂_plans hm
  rw [hdocument] at hplans
  refine ⟨c, m, hc, hm, fun s => ⟨_, Settings.generate_eq hc hm hw s, ?_⟩, ?_⟩
  · simp [Settings.sources]
  · refine List.forall₂_iff_zip.2 ⟨hplans.length_eq, fun hpair => ⟨?_, ?_⟩⟩
    · exact (List.forall₂_iff_zip.1 hplans).2 hpair
    · exact ServerModule.infix_of_mem_plans (List.of_mem_zip hpair).2

end ApiForge
