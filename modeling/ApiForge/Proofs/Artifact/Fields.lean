import ApiForge.Proofs.Artifact.Sections
import ApiForge.Proofs.Artifact.Twice
import ApiForge.Proofs.Identifier.Words
import ApiForge.Proofs.Numeric.IntegerText
import ApiForge.Proofs.Source.Form
/-!
Which fields of a request have the same identifier.

A request has a field for each parameter of the path and of the query, and one for
the body. `fieldsIn` reads them from the source. An identifier is what words spell,
those of a parameter's name or of its number, and it spells no others
(`Identifier.spell_injective`). So the letters between the words, their case and
the place of a parameter are lost, and nothing else: two fields have the same
identifier just when they have the same words (`request_fields`). Nothing makes
such fields different again (`fields_collide`).
-/

namespace ApiForge

open Identifier (IsWord spell)
open Source (Step typesIn)

-- ================================================ statement vocabulary

/-- The words of the field for parameter number `i`: those of its name, if it has
any. -/
def RequestField.words (wire : String) (i : Nat) : List String :=
  if Identifier.words wire = [] then ["param" ++ toString i]
  else Identifier.words wire

/-- The words of the fields for parameters, which are numbered from `i` on. -/
def Parameter.fieldWords (i : Nat) (ps : List Parameter) : List (List String) :=
  (ps.zipIdx i).filterMap fun (p, j) =>
    (RequestField.requiredIn p).map fun _ => RequestField.words p.name j

/-- The words of the fields that an operation asks for: those of its parameters,
and of its body if it takes one in JSON. -/
def Document.HasFields (d : Document) (e : Endpoint) (ws : List (List String)) :
    Prop :=
  ∃ ps body,
    Parameter.merged d e.item e.operation (e.verb.name ++ " " ++ e.path) = .ok ps
      ∧ (e.operation.TakesJson d ∧ body = [["body"]]
        ∨ ¬ e.operation.TakesJson d ∧ body = [])
      ∧ ws = Parameter.fieldWords 0 ps ++ body

namespace Source

/-- Steps define a struct whose fields are spelled with given words. -/
structure DefinesStruct (name : String) (ws : List (List String))
    (steps : List Step) : Prop where
  types : typesIn steps = [name]
  fields : fieldsIn steps = ws.map spell
  distinct : (fieldsIn steps).Nodup ↔ ws.Nodup

end Source

-- ================================================================ reading

namespace ServerModule

open Source

/-- The struct of a request has the fields that are planned. -/
theorem fieldsIn_requestSteps {p : OperationPlan}
    (h : ∀ f ∈ p.parameters, ':' ∉ f.ident.toList) :
    fieldsIn (requestSteps p)
      = p.parameters.map (·.ident)
        ++ if p.body.isSome then ["body"] else [] := by
  have hparameters : fieldsIn (p.parameters.flatMap fun f =>
      [.doc f.description,
       .line ("pub " ++ f.ident ++ ": "
         ++ (if f.required then f.type else .optional f.type).text
         ++ ",")])
      = p.parameters.map (·.ident) := by
    rw [fieldsIn, List.filterMap_flatMap, ← List.flatMap_pure_eq_map]
    refine List.flatMap_congr fun f hf => ?_
    rw [List.filterMap_cons_none rfl,
      List.filterMap_cons_some (field?_declaration (h f hf) _)]
    rfl
  -- of the other lines only that of the body declares a field
  have hcolon : ':' ∉ "body".toList := by decide
  have hbody (type : String) :
      field? (.line ("pub body: " ++ type ++ ",")) = some "body" :=
    field?_declaration hcolon type
  have hlabel :
      field? (.line ("/// Parameters of " ++ p.label ++ ".")) = none :=
    field?_of_head (c := '/') (by simp) (by decide)
  have hderive :
      field? (.line "#[derive(Debug, Clone, PartialEq)]") = none :=
    field?_of_head (c := '#') (by simp) (by decide)
  cases hplanned : p.body <;>
    simp [requestSteps, hplanned, hparameters, hbody, hlabel, hderive]

end ServerModule

-- ================================================================== words

namespace RequestField

/-- The name for a parameter that has no words of its own is one word. -/
theorem isWord_param (i : Nat) : IsWord ("param" ++ toString i) := by
  have hparam : ∀ c ∈ "param".toList, c.isLower = true :=
    List.all_eq_true.1 rfl
  refine ⟨fun hempty => ?_, fun c hc => ?_⟩
  · have hlength := congrArg String.length hempty
    rw [String.length_append] at hlength
    exact absurd hlength (by simp)
  · rw [String.toList_append, List.mem_append] at hc
    exact hc.imp (hparam c) Numeric.isDigit_of_mem_toString

/-- No keyword begins with the word for a parameter. -/
theorem spell_param (i : Nat) :
    spell ["param" ++ toString i] = "param" ++ toString i := by
  have hfront : ("param" ++ toString i).toList.take 5 = "param".toList := by
    rw [String.toList_append, List.take_append_of_le_length (by decide)]
    decide
  have hother {l : List String}
      (hl : l.all (fun k => k.toList.take 5 != "param".toList) = true) :
      l.contains ("param" ++ toString i) = false := by
    refine Bool.eq_false_iff.2 fun hmem => ?_
    have hne := List.all_eq_true.1 hl _ (List.contains_iff_mem.1 hmem)
    exact absurd hfront (bne_iff_ne.1 hne)
  have hdigit : Identifier.startsWithDigit ("param" ++ toString i) = false := by
    rw [Identifier.startsWithDigit, String.toList_append]
    rfl
  have hjoin : "_".intercalate ["param" ++ toString i] = "param" ++ toString i :=
    rfl
  rw [spell, Identifier.shielded, hjoin, hother (by decide), hother (by decide),
    hdigit]
  rfl

/-- The words of a parameter are words, whatever its name on the wire is. -/
theorem isWord_of_mem_words {wire : String} {i : Nat} :
    ∀ w ∈ words wire i, IsWord w := by
  intro w hw
  rw [words] at hw
  split at hw
  · cases List.mem_singleton.1 hw
    exact isWord_param i
  · exact Identifier.isWord_of_mem_words hw

/-- An identifier is what its words spell. -/
theorem identOf_eq (wire : String) (i : Nat) :
    identOf wire i = spell (words wire i) := by
  have hempty : (Identifier.fieldName wire).isEmpty = true
      ↔ Identifier.words wire = [] := by
    rw [String.isEmpty_iff, Identifier.fieldName_eq,
      Identifier.spell_eq_empty_iff fun w => Identifier.isWord_of_mem_words]
  rw [identOf, words]
  by_cases hwords : Identifier.words wire = []
  · rw [if_pos (hempty.2 hwords), if_pos hwords, spell_param]
  · rw [if_neg (mt hempty.1 hwords), if_neg hwords, Identifier.fieldName_eq]

end RequestField

theorem Parameter.fieldNames_eq (i : Nat) (ps : List Parameter) :
    fieldNames i ps = (fieldWords i ps).map spell := by
  rw [fieldNames, fieldWords, List.map_filterMap]
  refine List.filterMap_congr fun e _ => ?_
  simp only [Option.map_map, RequestField.identOf_eq]
  rfl

/-- The words of all fields are words. -/
theorem Parameter.isWord_of_mem_fieldWords {i : Nat} {ps : List Parameter} :
    ∀ ws ∈ fieldWords i ps, ∀ w ∈ ws, IsWord w := by
  intro ws hws
  obtain ⟨⟨p, j⟩, -, hp⟩ := List.mem_filterMap.1 hws
  obtain ⟨-, -, rfl⟩ := Option.map_eq_some_iff.1 hp
  exact RequestField.isWord_of_mem_words

/-- The words that an operation asks for are words. -/
theorem Document.HasFields.isWord {d : Document} {e : Endpoint}
    {ws : List (List String)} (h : d.HasFields e ws) :
    ∀ l ∈ ws, ∀ w ∈ l, IsWord w := by
  obtain ⟨ps, body, -, hbody, rfl⟩ := h
  intro l hl
  rcases List.mem_append.1 hl with hl | hl
  · exact Parameter.isWord_of_mem_fieldWords l hl
  · rcases hbody with ⟨-, rfl⟩ | ⟨-, rfl⟩
    · cases List.mem_singleton.1 hl
      intro w hw
      cases List.mem_singleton.1 hw
      have hlower : ∀ c ∈ "body".toList, c.isLower = true :=
        List.all_eq_true.1 rfl
      exact ⟨by decide, fun c hc => .inl (hlower c hc)⟩
    · exact absurd hl List.not_mem_nil

/-- The request of a plan has the fields that its operation asks for. -/
theorem OperationPlan.Planned.request {d : Document} {e : Document.Endpoint}
    {p : OperationPlan} (h : Planned d e p) :
    ∃ ws, d.HasFields e ws ∧ Source.DefinesStruct (e.name ++ "Request") ws
      (ServerModule.requestSteps p) := by
  obtain ⟨ps, hmerged, hidents⟩ := h.parameters
  rw [Parameter.fieldNames_eq] at hidents
  -- a name spelled from words has no colon, so the field ends where its name does
  have hcolon : ∀ f ∈ p.parameters, ':' ∉ f.ident.toList := by
    intro f hf hmem
    have hident : f.ident ∈ (Parameter.fieldWords 0 ps).map spell :=
      hidents ▸ List.mem_map_of_mem hf
    obtain ⟨ws, hws, heq⟩ := List.mem_map.1 hident
    rw [← heq] at hmem
    exact absurd (Identifier.fieldChar_of_mem_spell
      (Parameter.isWord_of_mem_fieldWords ws hws) hmem) (by decide)
  -- a body is one field more, and only a JSON body is
  obtain ⟨body, hbody, hspell⟩ : ∃ body,
      (e.operation.TakesJson d ∧ body = [["body"]]
        ∨ ¬ e.operation.TakesJson d ∧ body = [])
      ∧ (if p.body.isSome then ["body"] else []) = body.map spell := by
    by_cases hjson : e.operation.TakesJson d
    · exact ⟨_, .inl ⟨hjson, rfl⟩, if_pos (h.body.2 hjson)⟩
    · exact ⟨_, .inr ⟨hjson, rfl⟩, if_neg (mt h.body.1 hjson)⟩
  have hhas : d.HasFields e (Parameter.fieldWords 0 ps ++ body) :=
    ⟨ps, body, hmerged, hbody, rfl⟩
  have hfields : Source.fieldsIn (ServerModule.requestSteps p)
      = (Parameter.fieldWords 0 ps ++ body).map spell := by
    rw [ServerModule.fieldsIn_requestSteps hcolon, hidents, hspell,
      List.map_append]
  refine ⟨_, hhas, ?_, hfields, ?_⟩
  · rw [ServerModule.typesIn_requestSteps, h.name]
    rfl
  · rw [hfields, Identifier.nodup_map_spell hhas.isWord]

-- ============================================================= main result

namespace Settings

/-- The server that is generated from a prepared document defines a request for
each operation, whose fields are spelled with the words that the operation asks
for. They are different if these words are, and only then. -/
theorem request_fields {d : Document} {p : Prepared} (h : d.prepare = .ok p)
    (hf : p.document.MapsFinitely) :
    ∃ c m, p.document.catalog = .ok c ∧ ServerModule.ofCatalog c = .ok m
      ∧ (∀ s : Settings, ∃ artifacts, s.generate p.document = .ok artifacts
          ∧ ⟨"server", Source.text (ServerModule.steps m)⟩ ∈ artifacts)
      ∧ List.Forall₂ (fun e plan =>
          ServerModule.requestSteps plan <:+: m.steps
            ∧ ∃ ws, p.document.HasFields e ws
              ∧ Source.DefinesStruct (e.name ++ "Request") ws
                (ServerModule.requestSteps plan))
          p.document.operations m.plans := by
  obtain ⟨c, m, hc, hm, hwritten, hplans⟩ := Document.exists_server h hf
  refine ⟨c, m, hc, hm, hwritten, hplans.imp fun e plan hplan => ?_⟩
  exact ⟨hplan.2.1, hplan.1.request⟩

-- pets that are asked for by number, and by one thing more

/-- Lists the pets with a number and another property. -/
def listBy (property : String) : Operation where
  parameters :=
    [.inline { name := "petId", place := .query },
     .inline { name := property, place := .query }]
  responses := [("204", .inline { description := "Listed." })]

def register (property : String) : Document where
  openapi := "3.1.0"
  info := { title := "Register", version := "1" }
  paths := some
    [("/pets", PathItem.withOperation {} .get (some (listBy property)))]

/-- Two names that have no words in common give two fields. -/
theorem request_fields_register : ∃ p m plan,
    (register "limit").prepare = .ok p ∧ p.document.MapsFinitely
    ∧ ServerModule.plans m = [plan]
    ∧ typesIn (ServerModule.requestSteps plan) = ["GetPetsRequest"]
    ∧ Source.fieldsIn (ServerModule.requestSteps plan) = ["pet_id", "limit"]
    ∧ (Source.fieldsIn (ServerModule.requestSteps plan)).Nodup := by
  obtain ⟨p, hp, hdocument, hfinite⟩ := Document.prepared_of_shapes
    (d := register "limit") 1 (by decide +kernel) (by decide +kernel)
  obtain ⟨c, m, -, -, -, hplans⟩ := request_fields hp hfinite
  have hoperations : p.document.operations.map (fun e =>
        (e.name, e.operation.body.isNone,
          (Parameter.merged p.document e.item e.operation
            (e.verb.name ++ " " ++ e.path)).toOption.map
              (Parameter.fieldWords 0)))
      = [("GetPets", true, some [["pet", "id"], ["limit"]])] := by
    rw [hdocument]
    decide +kernel
  obtain ⟨e, hcons, he⟩ := List.map_eq_singleton_iff.1 hoperations
  rw [hcons] at hplans
  obtain ⟨plan, rest, ⟨-, ws, hhas, hdefines⟩, hrest, hsingle⟩ :=
    List.forall₂_cons_left_iff.1 hplans
  cases hrest
  simp only [Prod.mk.injEq] at he
  obtain ⟨hname, hbody, hwords⟩ := he
  -- there is no body, so the words are those of the two parameters
  have hws : ws = [["pet", "id"], ["limit"]] := by
    obtain ⟨ps, body, hmerged, hjson, rfl⟩ := hhas
    rw [hmerged] at hwords
    have hnone : body = [] := by
      refine hjson.elim (fun ⟨⟨entry, _, _, hentry, _⟩, _⟩ => ?_) And.right
      rw [hentry] at hbody
      cases hbody
    rw [hnone, List.append_nil]
    exact Option.some.inj hwords
  have hfields := hdefines.fields
  rw [hws] at hfields
  refine ⟨p, m, plan, hp, hfinite, hsingle, ?_, hfields, ?_⟩
  · rw [hdefines.types, hname]
    rfl
  · rw [hdefines.distinct, hws]
    decide

/-- Two spellings of one name are two parameters, and give one field twice. -/
theorem fields_collide : ∃ p c m plan,
    (register "pet_id").prepare = .ok p ∧ p.document.MapsFinitely
    ∧ p.document.catalog = .ok c ∧ ServerModule.ofCatalog c = .ok m
    ∧ ServerModule.plans m = [plan]
    ∧ ServerModule.requestSteps plan <:+: m.steps
    ∧ typesIn (ServerModule.requestSteps plan) = ["GetPetsRequest"]
    ∧ ¬ (Source.fieldsIn (ServerModule.requestSteps plan)).Nodup := by
  obtain ⟨p, hp, hdocument, hfinite⟩ := Document.prepared_of_shapes
    (d := register "pet_id") 1 (by decide +kernel) (by decide +kernel)
  obtain ⟨c, m, hc, hm, -, -⟩ := Document.exists_server hp hfinite
  have hrun := ServerModule.eq_of_run
    (f := fun m => m.plans.map fun plan =>
      (typesIn (ServerModule.requestSteps plan),
        Source.fieldsIn (ServerModule.requestSteps plan)))
    (a := [(["GetPetsRequest"], ["pet_id", "pet_id"])]) hc hm
    (by rw [hdocument]; decide +kernel)
  obtain ⟨plan, hplan, hread⟩ := List.map_eq_singleton_iff.1 hrun
  obtain ⟨htypes, hfields⟩ := Prod.mk.inj hread
  have hstands := ServerModule.infix_of_mem_plans
    (hplan ▸ List.mem_singleton_self plan)
  refine ⟨p, c, m, plan, hp, hfinite, hc, hm, hplan, hstands.1, htypes, ?_⟩
  rw [hfields]
  decide

end Settings

end ApiForge
