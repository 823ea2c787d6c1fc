import ApiForge.Proofs.Artifact.Closed
import ApiForge.Proofs.Artifact.Requirement
import ApiForge.Proofs.Artifact.Sections
import ApiForge.Proofs.Document.Ordered
/-!
Routes and requirements agree.

The source of the server registers operations, and the source of the security
inserts requirements; a request is matched with its requirement by the verb and
the path that stand in both. Each of the two files is read back call by call:
`registrations` and `insertions` find the calls among all that is written, and
read their arguments. Then both name the operations of the document, in the same
order and each once, and the requirement that is inserted for an operation is
that which applies to it (`routes_agree`).
-/

namespace ApiForge

-- =================================================================== calls

namespace Source

variable {α β : Type} {c : Char} {read : String → List Step → Option α}

/-- What is read at the calls of a file: `read` is given the text that opens a
call and the steps behind it. -/
def readCalls (read : String → List Step → Option α) : List Step → List α
  | [] => []
  | .enter call :: rest => (read call rest).toList ++ readCalls read rest
  | _ :: rest => readCalls read rest

theorem readCalls_line (text : String) (rest : List Step) :
    readCalls read (.line text :: rest) = readCalls read rest := rfl

/-- No step opens a block with a text that begins with `c`. -/
def Quiet (c : Char) (steps : List Step) : Prop :=
  ∀ step ∈ steps, ∀ call, step = .enter call → call.toList.head? ≠ some c

@[simp]
theorem quiet_nil : Quiet c [] := fun _ h => absurd h List.not_mem_nil

@[simp]
theorem quiet_append {l l' : List Step} :
    Quiet c (l ++ l') ↔ Quiet c l ∧ Quiet c l' :=
  List.forall_mem_append

@[simp]
theorem quiet_cons {step : Step} {l : List Step} :
    Quiet c (step :: l)
      ↔ (∀ call, step = .enter call → call.toList.head? ≠ some c)
        ∧ Quiet c l :=
  List.forall_mem_cons

@[simp]
theorem quiet_flatMap {l : List β} {f : β → List Step} :
    Quiet c (l.flatMap f) ↔ ∀ b ∈ l, Quiet c (f b) :=
  List.forall_mem_flatMap

@[simp]
theorem quiet_map {l : List β} {f : β → Step} :
    Quiet c (l.map f)
      ↔ ∀ b ∈ l, ∀ call, f b = .enter call → call.toList.head? ≠ some c :=
  List.forall_mem_map

/-- Nothing is read at texts that begin otherwise. -/
def ReadsAt (c : Char) (read : String → List Step → Option α) : Prop :=
  ∀ call rest, call.toList.head? ≠ some c → read call rest = none

/-- The calls among these steps are `found`, whatever stands behind them. -/
def Finds (read : String → List Step → Option α) (steps : List Step)
    (found : List α) : Prop :=
  ∀ rest, readCalls read (steps ++ rest) = found ++ readCalls read rest

/-- Nothing is found in quiet steps, as what is looked for begins with the sign. -/
theorem Quiet.finds (hread : ReadsAt c read) {steps : List Step}
    (h : Quiet c steps) : Finds read steps [] := by
  intro rest
  induction steps with
  | nil => rfl
  | cons step steps ih =>
      have hrest := ih fun s hs => h s (List.mem_cons_of_mem _ hs)
      cases step with
      | enter call =>
          have hcall := h _ (List.mem_cons_self ..) call rfl
          rw [List.cons_append, readCalls, hread _ _ hcall, hrest]
          rfl
      | _ => exact hrest

namespace Finds

variable {steps front back : List Step} {found : List α}

/-- All steps of a file. -/
theorem all (h : Finds read steps found) : readCalls read steps = found := by
  have hrest := h []
  rw [List.append_nil, readCalls, List.append_nil] at hrest
  exact hrest

/-- Nothing is found in front of the steps and behind them. -/
theorem between (h : Finds read steps found) (hread : ReadsAt c read)
    (hfront : Quiet c front) (hback : Quiet c back) :
    Finds read (front ++ (steps ++ back)) found := by
  intro rest
  rw [List.append_assoc, hfront.finds hread, List.append_assoc, h,
    hback.finds hread]
  rfl

/-- When each of several pieces holds one call, these are found in order. -/
theorem flatMap {f : β → List Step} {g : β → α}
    (h : ∀ b, Finds read (f b) [g b]) (l : List β) :
    Finds read (l.flatMap f) (l.map g) := by
  intro rest
  induction l with
  | nil => rfl
  | cons b l ih =>
      rw [List.flatMap_cons, List.append_assoc, h, ih, List.map_cons]
      rfl

end Finds

end Source

-- ================================================================== server

namespace ServerModule

open Source

/-- The verb of a call that registers an operation. -/
def verbOf? (call : String) : Option Verb :=
  Verb.all.find? fun v => call == "router." ++ v.key ++ "("

/-- The argument on a line, without the comma behind it. -/
def argument? (line : String) : Option String :=
  (line.toList.dropSuffix? [',']).map String.ofList

/-- The verb and the path, as literal, of a registration. -/
def readRegistration (call : String) : List Step → Option (Verb × String)
  | .line argument :: _ => do return (← verbOf? call, ← argument? argument)
  | _ => none

/-- The registrations in the source of a server. -/
def registrations (steps : List Step) : List (Verb × String) :=
  readCalls readRegistration steps

/-- A registration begins with the name of the router. -/
theorem readsAt_readRegistration : ReadsAt 'r' readRegistration := by
  intro call rest hcall
  have hverb : verbOf? call = none := by
    refine List.find?_eq_none.2 fun v _ hv => hcall ?_
    rw [eq_of_beq hv, String.toList_append, String.toList_append,
      List.append_assoc, List.head?_append]
    rfl
  unfold readRegistration
  split
  · rw [hverb]
    rfl
  · rfl

theorem quiet_requestSteps (p : OperationPlan) :
    Quiet 'r' (requestSteps p) := by
  cases hbody : p.body <;> simp [requestSteps, hbody]

theorem quiet_responseSteps (p : OperationPlan) :
    Quiet 'r' (responseSteps p) := by
  simp [responseSteps]

/-- The definition of a type registers nothing. -/
theorem quiet_definition (d : Definition) : Quiet 'r' d.steps := by
  cases hbody : d.body with
  | struct fields => simp [Definition.steps, hbody, Definition.structSteps]
  | enumeration literals =>
      simp [Definition.steps, hbody, Definition.enumerationSteps]
  | _ => simp [Definition.steps, hbody]

theorem quiet_sectionSteps (s : ServerSection) :
    Quiet 'r' (sectionSteps s) := by
  simp [sectionSteps, Definition.listSteps, quiet_requestSteps,
    quiet_responseSteps, quiet_definition]

theorem quiet_methodSteps (first : Bool) (p : OperationPlan) :
    Quiet 'r' (methodSteps first p) := by
  cases first <;> cases hsummary : p.summary.or p.description <;>
    simp [methodSteps, hsummary]

theorem quiet_handlerSteps (m : ServerModule) :
    Quiet 'r' (handlerSteps m) := by
  simp [handlerSteps, quiet_methodSteps]

/-- The parser of a request registers nothing. -/
theorem quiet_parserSteps (p : OperationPlan) :
    Quiet 'r' (parserSteps p) := by
  cases hbody : p.body with
  | none => simp [parserSteps, hbody]
  | some body =>
      obtain ⟨type, required⟩ := body
      cases required <;> simp [parserSteps, hbody]

theorem verbOf?_call (v : Verb) :
    verbOf? ("router." ++ v.key ++ "(") = some v := by
  cases v <;> decide +kernel

/-- An argument on a line of its own is read up to the comma. -/
theorem argument?_line (text : String) :
    argument? (text ++ ",") = some text := by
  have hdrop : (text ++ ",").toList.dropSuffix? [','] = some text.toList := by
    refine List.dropSuffix?_eq_some_iff.2 ⟨[','], ?_, beq_self_eq_true _⟩
    rw [String.toList_append]
    rfl
  rw [argument?, hdrop, Option.map_some, String.ofList_toList]

/-- The block of an operation registers it, and nothing else. -/
theorem finds_routeSteps (p : OperationPlan) :
    Finds readRegistration (routeSteps p)
      [(p.verb, Definition.literal p.path)] := by
  -- the handler is bound in front of the call, and behind it stands its body
  obtain ⟨back, hsplit, hback⟩ : ∃ back,
      routeSteps p
        = [.enter "\x7b",
            .line "let handler = std::sync::Arc::clone(&handler);"]
          ++ (([.enter ("router." ++ p.verb.key ++ "("),
            .line (Definition.literal p.path ++ ",")] : List Step) ++ back)
      ∧ Quiet 'r' back :=
    ⟨_, rfl, by simp⟩
  have hcall : Finds readRegistration
      [.enter ("router." ++ p.verb.key ++ "("),
        .line (Definition.literal p.path ++ ",")]
      [(p.verb, Definition.literal p.path)] := by
    intro rest
    rw [List.cons_append, List.cons_append, readCalls, readRegistration,
      verbOf?_call, argument?_line, readCalls_line]
    rfl
  rw [hsplit]
  exact hcall.between readsAt_readRegistration (by simp) hback

/-- The router registers the operations that are planned. -/
theorem finds_routerSteps (m : ServerModule) :
    Finds readRegistration (routerSteps m)
      (m.plans.map fun p => (p.verb, Definition.literal p.path)) := by
  obtain ⟨front, back, hsplit, hfront, hback⟩ : ∃ front back,
      routerSteps m = front ++ (m.plans.flatMap routeSteps ++ back)
        ∧ Quiet 'r' front ∧ Quiet 'r' back := by
    refine ⟨_, _, rfl, by simp, ?_⟩
    cases m.plans.isEmpty <;> simp
  rw [hsplit]
  exact (Finds.flatMap finds_routeSteps m.plans).between
    readsAt_readRegistration hfront hback

/-- A server registers the operations that are planned. -/
theorem registrations_steps (m : ServerModule) :
    registrations m.steps
      = m.plans.map fun p => (p.verb, Definition.literal p.path) := by
  have hsplit : m.steps
      = ([.line headerLine, .blank, .line "use super::types::*;"]
          ++ m.sections.flatMap sectionSteps ++ (.blank :: handlerSteps m)
          ++ [.blank])
        ++ (routerSteps m
          ++ m.plans.flatMap fun p => .blank :: parserSteps p) := by
    simp [steps]
  rw [registrations, hsplit]
  refine ((finds_routerSteps m).between readsAt_readRegistration ?_ ?_).all
  · simp [quiet_sectionSteps, quiet_handlerSteps]
  · simp [quiet_parserSteps]

-- =================================================================== plans

/-- A server serves the operations of the document, in order. -/
theorem routes_ofCatalog {c : Catalog} {m : ServerModule}
    (h : ofCatalog c = .ok m) :
    m.routes = c.document.operations.map fun e => (e.verb, e.path) := by
  rw [routes, eq_comm, ← List.forall₂_eq_eq_eq, List.forall₂_map_left_iff,
    List.forall₂_map_right_iff]
  exact (forall₂_plans h).imp fun _ _ hplan => hplan.route.symm

/-- A server registers the operations of the document, in order. -/
theorem registrations_ofCatalog {c : Catalog} {m : ServerModule}
    (h : ofCatalog c = .ok m) :
    registrations m.steps
      = c.document.operations.map fun e =>
          (e.verb, Definition.literal e.path) := by
  have hliterals := congrArg
    (List.map fun r : Verb × String => (r.1, Definition.literal r.2))
    (routes_ofCatalog h)
  rw [routes, List.map_map, List.map_map] at hliterals
  rw [registrations_steps]
  exact hliterals

end ServerModule

-- ================================================================ security

namespace SecurityModule

open Source

/-- A requirement that the source inserts, with its key: the verb, and the path
as literal. -/
structure Insertion where
  verb : Verb
  path : String
  requirement : Requirement

/-- The verb and the path of a key. -/
def readKey? (line : String) : Option (Verb × String) := do
  let cs ← skip "(oasgen_runtime::http::Method::" line.toList
  let verb ← Verb.ofName? (String.ofList (cs.takeWhile (· != ',')))
  let cs ← skip ", " (cs.dropWhile (· != ','))
  let path ← cs.dropSuffix? ".to_string()),".toList
  return (verb, String.ofList path)

/-- The key and the requirement of an insertion. -/
def readInsertion (call : String) : List Step → Option Insertion
  | .line key :: .line value :: _ => do
    if call ≠ "table.insert(" then none
    let (verb, path) ← readKey? key
    let (r, rest) ← requirement.read value.toList
    if rest = [','] then some ⟨verb, path, r⟩ else none
  | _ => none

/-- The insertions in the source of the security. -/
def insertions (steps : List Step) : List Insertion :=
  readCalls readInsertion steps

/-- An insertion begins with the name of the table. -/
theorem readsAt_readInsertion : ReadsAt 't' readInsertion := by
  intro call rest hcall
  have hne : call ≠ "table.insert(" := by
    rintro rfl
    exact hcall (by decide)
  unfold readInsertion
  split
  · rw [if_pos hne]
    rfl
  · rfl

/-- The name of a verb ends at the comma behind it. -/
theorem span_name (v : Verb) (rest : List Char) :
    (v.name.toList ++ (", ".toList ++ rest)).takeWhile (· != ',')
        = v.name.toList
      ∧ (v.name.toList ++ (", ".toList ++ rest)).dropWhile (· != ',')
        = ", ".toList ++ rest := by
  have hall : v.name.toList.all (· != ',') = true := by
    cases v <;> decide +kernel
  have hname := List.all_eq_true.1 hall
  have hcomma : ", ".toList ++ rest = ',' :: ' ' :: rest := rfl
  rw [List.takeWhile_append_of_pos hname, List.dropWhile_append_of_pos hname,
    hcomma]
  exact ⟨List.append_nil _, rfl⟩

theorem ofName?_name (v : Verb) : Verb.ofName? v.name = some v := by
  cases v <;> decide +kernel

/-- The key of an insertion is read back as verb and path. -/
theorem readKey?_line (v : Verb) (path : String) :
    readKey? ("(oasgen_runtime::http::Method::" ++ v.name ++ ", "
      ++ path ++ ".to_string()),") = some (v, path) := by
  have hsuffix : (path.toList ++ ".to_string()),".toList).dropSuffix?
      ".to_string()),".toList = some path.toList :=
    List.dropSuffix?_eq_some_iff.2 ⟨_, rfl, beq_self_eq_true _⟩
  simp only [String.toList_append, readKey?, List.append_assoc]
  rw [skip_append, Option.bind_eq_bind, Option.bind_some, (span_name v _).1,
    (span_name v _).2, String.ofList_toList, ofName?_name, Option.bind_eq_bind,
    Option.bind_some, skip_append, Option.bind_some, hsuffix, Option.bind_some,
    String.ofList_toList]
  rfl

/-- The entry of an operation inserts its requirement, and nothing else. -/
theorem finds_operationSteps (o : SecuredOperation) :
    Finds readInsertion (operationSteps o)
      [⟨o.verb, Definition.literal o.path, o.requirement⟩] := by
  intro rest
  have hvalue : requirement.read (requirementExpr o.requirement ++ ",").toList
      = some (o.requirement, [',']) := by
    rw [String.toList_append]
    exact requirement.read_print o.requirement [',']
  have hquiet : Quiet 't' [.leave ");"] := by simp
  rw [operationSteps, List.cons_append, List.cons_append, List.cons_append,
    readCalls, readInsertion, if_neg (by decide), readKey?_line, hvalue,
    readCalls_line, readCalls_line, hquiet.finds readsAt_readInsertion]
  rfl

theorem quiet_methodSteps (i : Nat) (name : String) (s : SecurityScheme) :
    Quiet 't' (methodSteps i name s) := by
  cases hfirst : decide (i = 0) <;> cases hdescription : s.description <;>
    simp_all [methodSteps]

theorem quiet_schemeSteps (schemes : Table SecurityScheme) :
    Quiet 't' (schemeSteps schemes) := by
  simp [schemeSteps]

theorem quiet_handlerSteps (schemes : Table SecurityScheme) :
    Quiet 't' (handlerSteps schemes) := by
  simp [handlerSteps, quiet_methodSteps]

theorem quiet_authenticatorSteps (schemes : Table SecurityScheme) :
    Quiet 't' (authenticatorSteps schemes) := by
  simp [authenticatorSteps]

theorem quiet_middlewareSteps : Quiet 't' middlewareSteps := by
  simp [middlewareSteps]

/-- The table of requirements has one entry for each operation. -/
theorem finds_requirementSteps (os : List SecuredOperation) :
    Finds readInsertion (requirementSteps os)
      (os.map fun o => ⟨o.verb, Definition.literal o.path, o.requirement⟩) := by
  obtain ⟨front, back, hsplit, hfront, hback⟩ : ∃ front back,
      requirementSteps os = front ++ (os.flatMap operationSteps ++ back)
        ∧ Quiet 't' front ∧ Quiet 't' back :=
    ⟨_, _, rfl, by simp, by simp⟩
  rw [hsplit]
  exact (Finds.flatMap finds_operationSteps os).between
    readsAt_readInsertion hfront hback

/-- The security inserts the requirements of its operations. -/
theorem insertions_steps (m : SecurityModule) :
    insertions m.steps = m.operations.map fun o =>
      ⟨o.verb, Definition.literal o.path, o.requirement⟩ := by
  have hsplit : m.steps
      = ([.line headerLine] ++ (.blank :: schemeSteps m.schemes)
          ++ (.blank :: handlerSteps m.schemes)
          ++ (.blank :: authenticatorSteps m.schemes) ++ [.blank])
        ++ (requirementSteps m.operations ++ (.blank :: middlewareSteps)) := by
    simp [steps]
  rw [insertions, hsplit]
  refine ((finds_requirementSteps _).between readsAt_readInsertion ?_ ?_).all
  · simp [quiet_schemeSteps, quiet_handlerSteps, quiet_authenticatorSteps]
  · simp [quiet_middlewareSteps]

end SecurityModule

-- ============================================================= main result

/-- An item has one operation at most for each verb. -/
theorem PathItem.nodup_verbs (p : PathItem) :
    (p.operations.map (·.1)).Nodup := by
  have hverbs : p.operations.map (·.1)
      = Verb.all.filter fun v => (p.operation v).isSome := by
    rw [PathItem.operations, List.map_filterMap, ← List.filterMap_eq_filter]
    refine List.filterMap_congr fun v _ => ?_
    cases hv : p.operation v <;> simp [Option.guard, hv]
  have hall : Verb.all.Nodup := by decide
  rw [hverbs]
  exact hall.filter _

namespace Document

/-- No path has two operations for one verb, and no path stands twice. -/
theorem nodup_operations {d : Document} (h : d.pathTable.Sorted) :
    (d.operations.map fun e => (e.verb, e.path)).Nodup := by
  have hkeys : d.operations.map (fun e => (e.verb, e.path))
      = d.pathTable.flatMap fun e => e.2.operations.map fun o => (o.1, e.1) := by
    rw [operations, List.map_flatMap]
    refine List.flatMap_congr fun e _ => ?_
    rw [List.map_map]
    rfl
  -- on one path the verbs differ, and on different paths the paths do
  rw [hkeys, List.nodup_flatMap]
  refine ⟨fun e _ => ?_, h.imp fun {e e'} hlt x hx hx' => ?_⟩
  · have hverbs := e.2.nodup_verbs
    have hpair : Function.Injective fun v : Verb => (v, e.1) := by
      intro v v' heq
      exact (Prod.mk.inj heq).1
    have hmap := hverbs.map hpair
    rw [List.map_map] at hmap
    exact hmap
  · obtain ⟨o, -, rfl⟩ := List.mem_map.1 hx
    obtain ⟨o', -, heq⟩ := List.mem_map.1 hx'
    have hpath : e'.1 = e.1 := (Prod.mk.inj heq).2
    rw [hpath] at hlt
    exact String.lt_irrefl _ hlt

/-- What is inserted for an operation: its verb, the literal of its path, and
the requirement that applies to it. -/
structure Secures (d : Document) (e : Endpoint)
    (i : SecurityModule.Insertion) : Prop where
  verb : i.verb = e.verb
  path : i.path = Definition.literal e.path
  requirement : Requires e.operation.security d.security i.requirement

end Document

namespace Settings

open ServerModule (registrations)
open SecurityModule (insertions)

/-- The server is written, and the security if it is asked for. -/
theorem mem_generate {d : Document} {c : Catalog} {m : ServerModule}
    {w : Option WebhookModule} {v : SecurityModule} (hc : d.catalog = .ok c)
    (hm : ServerModule.ofCatalog c = .ok m)
    (hw : WebhookModule.ofCatalog? c = .ok w)
    (hv : SecurityModule.ofDocument? d = some v) (s : Settings) :
    ∃ artifacts, s.generate d = .ok artifacts
      ∧ ⟨"server", Source.text m.steps⟩ ∈ artifacts
      ∧ (s.emitSecurity = true →
          ⟨"security", Source.text v.steps⟩ ∈ artifacts) := by
  have hsource : d.securitySource? = some (Source.text v.steps) := by
    rw [Document.securitySource?, hv]
    rfl
  refine ⟨_, generate_eq hc hm hw s, ?_, fun hemit => ?_⟩
  · simp [sources]
  · simp [sources, hsource, hemit]

/-- The server that is generated from a prepared document registers, in order
and each once, the verbs and paths for which the security inserts a
requirement. These are the operations of the document, and what is inserted for
an operation is the requirement that applies to it. -/
theorem routes_agree {d : Document} {p : Prepared} (h : d.prepare = .ok p)
    (hf : p.document.MapsFinitely) (hordered : d.Ordered)
    (hschemes : p.document.securitySchemes ≠ []) :
    ∃ m v,
      registrations (ServerModule.steps m)
          = (insertions (SecurityModule.steps v)).map (fun i => (i.verb, i.path))
      ∧ (registrations m.steps).Nodup
      ∧ List.Forall₂ p.document.Secures p.document.operations
          (insertions v.steps)
      ∧ ∀ s : Settings, ∃ artifacts, s.generate p.document = .ok artifacts
          ∧ ⟨"server", Source.text m.steps⟩ ∈ artifacts
          ∧ (s.emitSecurity = true →
              ⟨"security", Source.text v.steps⟩ ∈ artifacts) := by
  have hd := Document.checked_of_prepare h
  have ho : p.document.Ordered := by
    rw [Document.document_of_prepare h]
    exact hordered.canonical
  obtain ⟨c, hc, hdocument, -⟩ := Document.catalog_ok hf
  rw [← hdocument] at hd hf
  obtain ⟨m, -, hm, -⟩ := ServerModule.ofCatalog_ok hd hf
  obtain ⟨w, hw, -⟩ := WebhookModule.ofCatalog?_ok hd hf
  -- there are schemes, so a security module is written for all operations
  obtain ⟨v, hv, hoperations⟩ : ∃ v,
      SecurityModule.ofDocument? p.document = some v
        ∧ v.operations = p.document.operations.map fun e =>
            ⟨e.verb, e.path, p.document.requirementOf e.operation⟩ := by
    rw [SecurityModule.ofDocument?, if_neg]
    · exact ⟨_, rfl, rfl⟩
    · rw [List.isEmpty_iff]
      exact hschemes
  have hroutes : registrations m.steps = p.document.operations.map fun e =>
      (e.verb, Definition.literal e.path) := by
    rw [ServerModule.registrations_ofCatalog hm, hdocument]
  refine ⟨m, v, ?_, ?_, ?_, mem_generate hc hm hw hv⟩
  · rw [hroutes, SecurityModule.insertions_steps, hoperations, List.map_map,
      List.map_map]
    rfl
  -- verbs and paths occur once in the document, and a literal determines its text
  · have hpair : Function.Injective
        fun r : Verb × String => (r.1, Definition.literal r.2) := by
      intro r r' heq
      have hpath := Text.Quoted.encode_injective (Prod.mk.inj heq).2
      exact Prod.ext (Prod.mk.inj heq).1 hpath
    have hnodup := (Document.nodup_operations ho.paths).map hpair
    rw [List.map_map] at hnodup
    rw [hroutes]
    exact hnodup
  · rw [SecurityModule.insertions_steps, hoperations, List.map_map,
      List.forall₂_map_right_iff, List.forall₂_same]
    exact fun e he =>
      ⟨rfl, rfl, Document.requires_requirementOf fun cs hcs =>
        ho.applying he cs hcs⟩

/-- Asks for nothing, whatever the document asks for. -/
def readStatus : Operation where
  responses := [("204", .inline { description := "Open." })]
  security := some []

/-- A kennel with a key: it must be shown for the list of pets, and need not be
for the status. -/
def guardedKennel : Document where
  openapi := "3.1.0"
  info := { title := "Kennel", version := "1" }
  paths := some
    [("/pets", PathItem.withOperation {} .get (some listPets)),
     ("/status", PathItem.withOperation {} .get (some readStatus))]
  components := some kennelComponents
  security := some [[("key", ["read", "list"])]]

theorem ordered_guardedKennel : guardedKennel.Ordered where
  paths := by
    rw [Table.Sorted]
    decide
  items := by
    intro e he
    rcases List.mem_pair.1 he with rfl | rfl
    · exact PathItem.ordered_empty.withOperation fun o ho => by
        cases ho
        exact fun l hl => absurd hl (Option.not_mem_none l)
    · refine PathItem.ordered_empty.withOperation fun o ho => ?_
      cases ho
      intro l hl
      cases hl
      exact fun c hc => absurd hc List.not_mem_nil
  clauses := by
    intro l hl
    cases hl
    intro c hc
    cases List.mem_singleton.1 hc
    exact List.pairwise_singleton _ _

/-- The clause of the document is inserted for the list of pets, and nothing is
asked for the status. -/
theorem routes_agree_kennel : ∃ p m v, guardedKennel.prepare = .ok p
    ∧ registrations (ServerModule.steps m)
      = [(.get, "\"/pets\""), (.get, "\"/status\"")]
    ∧ insertions (SecurityModule.steps v)
      = [⟨.get, "\"/pets\"", .clauses [[("key", ["read", "list"])]]⟩,
        ⟨.get, "\"/status\"", .anonymous⟩] := by
  obtain ⟨p, hp, hdocument, hfinite⟩ :=
    Document.prepared_of_shapes (d := guardedKennel) 3 (by decide +kernel)
      (by decide +kernel)
  have hschemes : p.document.securitySchemes ≠ [] := by
    have hnonempty :
        guardedKennel.canonical.1.securitySchemes.isEmpty = false := by
      decide +kernel
    rw [hdocument]
    intro hnone
    rw [hnone] at hnonempty
    cases hnonempty
  obtain ⟨m, v, hsame, -, hsecures, -⟩ :=
    routes_agree hp hfinite ordered_guardedKennel hschemes
  have hoperations : p.document.operations.map (fun e =>
        ((e.verb, Definition.literal e.path),
          e.operation.security.or p.document.security))
      = [((.get, "\"/pets\""), some [[("key", ["read", "list"])]]),
        ((.get, "\"/status\""), some [])] := by
    rw [hdocument]
    decide +kernel
  -- the requirements are determined by the lists that apply
  obtain ⟨pets, rest, hcons, hpets, hrest⟩ := List.map_eq_cons_iff.1 hoperations
  obtain ⟨status, rfl, hstatus⟩ := List.map_eq_singleton_iff.1 hrest
  rw [Prod.mk.injEq, Prod.mk.injEq] at hpets hstatus
  rw [hcons] at hsecures
  obtain ⟨i, is, hi, his, hinsertions⟩ := List.forall₂_cons_left_iff.1 hsecures
  obtain ⟨j, js, hj, hjs, rfl⟩ := List.forall₂_cons_left_iff.1 his
  cases hjs
  have hpetsRequirement := hi.requirement
  rw [Requires, hpets.2] at hpetsRequirement
  have hstatusRequirement := hj.requirement
  rw [Requires, hstatus.2] at hstatusRequirement
  have hfirst : i
      = ⟨.get, "\"/pets\"", .clauses [[("key", ["read", "list"])]]⟩ := by
    rw [← hpetsRequirement.1, ← hpets.1.1, ← hpets.1.2, ← hi.verb, ← hi.path]
  have hsecond : j = ⟨.get, "\"/status\"", .anonymous⟩ := by
    rw [← hstatusRequirement, ← hstatus.1.1, ← hstatus.1.2, ← hj.verb, ← hj.path]
  rw [hinsertions, hfirst, hsecond] at hsame
  rw [hfirst, hsecond] at hinsertions
  exact ⟨p, m, v, hp, hsame, hinsertions⟩

end Settings

end ApiForge
