import ApiForge.Proofs.Document.Paired
import ApiForge.Proofs.Reference.Check
/-!
References of paired documents.

# Occurrences

The check descends into schemas up to their pointers. Schemas that are alike
where they are written out therefore have the same references, at the same
locations, and documents that are paired by this have them in the same order
(`Document.Paired.occurrences`).

# Answers

In paired documents a pointer is answered alike: with the same error, or with
entries that stand at the same address and are paired (`Paired.follow`). So
every reference resolves in both or fails in both for one reason, and the check
of the one says what that of the other says (`Paired.checkReferences`).
-/

namespace ApiForge

variable {α β : Type} {S : Schema → Schema → Prop}

-- ============================================================ equal lists

/-- Lists made alike of members that correspond are equal. -/
theorem flatMap_eq_of_forall₂ {P : α → α → Prop} {f g : α → List β}
    {l l' : List α} (h : List.Forall₂ P l l')
    (hfg : ∀ a a', P a a' → f a = g a') : l.flatMap f = l'.flatMap g := by
  induction h with
  | nil => rfl
  | cons ha _ ih => rw [List.flatMap_cons, List.flatMap_cons, hfg _ _ ha, ih]

theorem Table.Alike.flatMap_eq {P : α → α → Prop} {f : String × α → List β}
    {t t' : Table α} (h : Table.Alike P t t')
    (hf : ∀ k a a', P a a' → f (k, a) = f (k, a')) :
    t.flatMap f = t'.flatMap f := by
  refine flatMap_eq_of_forall₂ h fun e e' he => ?_
  cases he with
  | intro ha => exact hf _ _ _ ha

/-- Members that correspond have the same number. -/
theorem forall₂_zipIdx {P : α → α → Prop} {l l' : List α}
    (h : List.Forall₂ P l l') (i : Nat) :
    List.Forall₂ (fun x x' => P x.1 x'.1 ∧ x.2 = x'.2) (l.zipIdx i)
      (l'.zipIdx i) := by
  induction h generalizing i with
  | nil => exact .nil
  | cons ha _ ih => exact .cons ⟨ha, rfl⟩ (ih (i + 1))

-- ============================================================ occurrences

namespace Schema

variable {R : Schema → Schema → Prop} {s s' : Schema}

/-- Two schemas have the same references, wherever they stand. -/
def SameOccurrences (s s' : Schema) : Prop :=
  ∀ location, s.occurrences location = s'.occurrences location

/-- Like tables of schemas list the same references. -/
theorem occurrencesInTable_paired {t t' : Table Schema}
    (h : Table.Alike SameOccurrences t t') (location : String) :
    occurrencesInTable location t = occurrencesInTable location t' := by
  induction h with
  | nil => rfl
  | cons he _ ih =>
      cases he with
      | intro hs => rw [occurrencesInTable, occurrencesInTable, hs, ih]

/-- Lists of schemas that are alike list the same references. -/
theorem occurrencesInList_paired {l l' : List Schema}
    (h : List.Forall₂ SameOccurrences l l') (location : String) (i : Nat) :
    occurrencesInList location i l = occurrencesInList location i l' := by
  induction h generalizing i with
  | nil => rfl
  | cons hs _ ih => rw [occurrencesInList, occurrencesInList, hs, ih]

/-- Optional schemas that are alike list the same references. -/
theorem occurrencesInOption_paired {o o' : Option Schema}
    (h : Option.Rel SameOccurrences o o') (location : String) :
    occurrencesInOption location o = occurrencesInOption location o' := by
  cases h with
  | none => rfl
  | some hs => exact hs location

/-- Like settings for further properties list the same references. -/
theorem occurrencesInAdditional_paired {o o' : Option (Additional Schema)}
    (h : Option.Rel (Additional.Alike SameOccurrences) o o')
    (location : String) :
    occurrencesInAdditional location o
      = occurrencesInAdditional location o' := by
  cases h with
  | none => rfl
  | some ha =>
      cases ha with
      | allowed yes => rfl
      | shaped hs => exact hs location

/-- What stands beside a pointer is not searched for references. -/
theorem AlikeInline.sameOccurrences (h : AlikeInline R s s') :
    SameOccurrences s s' := by
  refine AlikeInline.induct ?pointer ?inline h
  case pointer =>
    intro s s' p hs hs' location
    rw [occurrences_pointer hs, occurrences_pointer hs']
  case inline =>
    intro s s' hs hs' _ members location
    have members := members.imp (T := SameOccurrences) fun _ _ _ hcc => hcc.2
    rw [occurrences_eq hs, occurrences_eq hs',
      occurrencesInTable_paired members.properties,
      occurrencesInOption_paired members.items,
      occurrencesInAdditional_paired members.additional,
      occurrencesInList_paired members.allOf,
      occurrencesInList_paired members.oneOf,
      occurrencesInList_paired members.anyOf,
      occurrencesInOption_paired members.negated]

end Schema

open Schema (SameOccurrences)

/-- Entries that are alike list the same references. -/
theorem Referable.Alike.occurrences {P : α → α → Prop} {kind : EntryKind}
    {inner : String → α → List Occurrence} {e e' : Referable α}
    (h : Referable.Alike P e e')
    (hinner : ∀ a a', P a a' → ∀ location, inner location a = inner location a')
    (location : String) :
    e.occurrences kind inner location = e'.occurrences kind inner location := by
  cases h with
  | pointer target => rfl
  | inline ha => exact hinner _ _ ha location

/-- Paired contents list the same references. -/
theorem Content.occurrences_paired {c c' : Content}
    (h : Table.Alike (MediaType.Paired SameOccurrences) c c')
    (location : String) :
    Content.occurrences location c = Content.occurrences location c' :=
  h.flatMap_eq fun _ _ _ hm => Schema.occurrencesInOption_paired hm location

/-- Paired parameters list the same references. -/
theorem Parameter.occurrences_paired {p p' : Referable Parameter}
    (h : Referable.Alike (Parameter.Paired SameOccurrences) p p')
    (location : String) :
    Parameter.occurrences location p = Parameter.occurrences location p' :=
  h.occurrences (fun _ _ hp => Schema.occurrencesInOption_paired hp.schema)
    location

/-- Paired bodies list the same references. -/
theorem RequestBody.occurrences_paired {b b' : Referable RequestBody}
    (h : Referable.Alike (RequestBody.Paired SameOccurrences) b b')
    (location : String) :
    RequestBody.occurrences location b = RequestBody.occurrences location b' :=
  h.occurrences (fun _ _ hb => Content.occurrences_paired hb.content) location

/-- Paired responses list the same references. -/
theorem Response.occurrences_paired {r r' : Referable Response}
    (h : Referable.Alike (Response.Paired SameOccurrences) r r')
    (location : String) :
    Response.occurrences location r = Response.occurrences location r' :=
  h.occurrences (fun _ _ hr => Content.occurrences_paired hr.content) location

/-- Lists of paired parameters list the same references. -/
theorem Parameter.occurrencesInList_paired {ps ps' : List (Referable Parameter)}
    (h : List.Forall₂ (Referable.Alike (Parameter.Paired SameOccurrences))
      ps ps') (location : String) :
    Parameter.occurrencesInList location ps
      = Parameter.occurrencesInList location ps' := by
  refine flatMap_eq_of_forall₂ (forall₂_zipIdx h 0) ?_
  rintro ⟨p, i⟩ ⟨p', i'⟩ ⟨hp, rfl⟩
  exact Parameter.occurrences_paired hp _

/-- Paired operations list the same references. -/
theorem Operation.Paired.occurrences {o o' : Operation}
    (h : Operation.Paired SameOccurrences o o') (location : String) :
    o.occurrences location = o'.occurrences location := by
  have hbody : (o.body.map (RequestBody.occurrences
        (location ++ " request body"))).getD []
      = (o'.body.map (RequestBody.occurrences
        (location ++ " request body"))).getD [] := by
    match o.body, o'.body, h.body with
    | _, _, .none => rfl
    | _, _, .some hb => exact RequestBody.occurrences_paired hb _
  rw [Operation.occurrences, Operation.occurrences, hbody,
    Parameter.occurrencesInList_paired h.parameters]
  congr 1
  exact h.responses.flatMap_eq fun _ _ _ hr => Response.occurrences_paired hr _

/-- The operations of paired paths correspond verb by verb. -/
theorem PathItem.Paired.operations {p p' : PathItem}
    (h : PathItem.Paired S p p') :
    List.Forall₂ (Keyed (Operation.Paired S)) p.operations p'.operations :=
  forall₂_operations h.operation

/-- Paired items list the same references. -/
theorem PathItem.Paired.occurrences {p p' : PathItem}
    (h : PathItem.Paired SameOccurrences p p') (location : String) :
    p.occurrences location = p'.occurrences location := by
  rw [PathItem.occurrences, PathItem.occurrences,
    Parameter.occurrencesInList_paired h.parameters]
  congr 1
  refine flatMap_eq_of_forall₂ h.operations fun e e' he => ?_
  cases he with
  | intro ho => exact ho.occurrences _

/-- Paired components list the same references. -/
theorem Components.Paired.occurrences {c c' : Components}
    (h : Components.Paired SameOccurrences c c') :
    c.occurrences = c'.occurrences := by
  have hschemas := h.schemas.flatMap_eq
    (f := fun e => e.2.occurrences ("components.schemas." ++ e.1))
    fun _ _ _ hs => hs _
  have hresponses := h.responses.flatMap_eq
    (f := fun e => Response.occurrences ("components.responses." ++ e.1) e.2)
    fun _ _ _ hr => Response.occurrences_paired hr _
  have hparameters := h.parameters.flatMap_eq
    (f := fun e => Parameter.occurrences ("components.parameters." ++ e.1) e.2)
    fun _ _ _ hp => Parameter.occurrences_paired hp _
  have hbodies := h.requestBodies.flatMap_eq
    (f := fun e =>
      RequestBody.occurrences ("components.requestBodies." ++ e.1) e.2)
    fun _ _ _ hb => RequestBody.occurrences_paired hb _
  rw [Components.occurrences, Components.occurrences, hschemas, hresponses,
    hparameters, hbodies]

namespace Document.Paired

variable {d d' : Document}

/-- The shared entries of paired documents, also where there is no section of
them. -/
theorem shared (h : Document.Paired S d d') :
    Components.Paired S d.shared d'.shared := by
  rw [Document.shared, Document.shared]
  match d.components, d'.components, h.components with
  | _, _, .none => exact ⟨.nil, .nil, .nil, .nil, rfl⟩
  | _, _, .some hc => exact hc

/-- Paired documents have paired items under the same paths. -/
theorem pathTable (h : Document.Paired S d d') :
    Table.Alike (PathItem.Paired S) d.pathTable d'.pathTable := by
  rw [Document.pathTable, Document.pathTable]
  match d.paths, d'.paths, h.paths with
  | _, _, .none => exact .nil
  | _, _, .some ht => exact ht

/-- Documents whose schemas have the same references have the same
references. -/
theorem occurrences (h : Document.Paired SameOccurrences d d') :
    d.occurrences = d'.occurrences := by
  have hpaths := h.pathTable.flatMap_eq
    (f := fun e => e.2.occurrences e.1) fun _ _ _ hp => hp.occurrences _
  have hwebhooks := h.webhooks.flatMap_eq
    (f := fun e => e.2.occurrences ("webhook " ++ e.1))
    fun _ _ _ hp => hp.occurrences _
  rw [Document.occurrences, Document.occurrences, h.shared.occurrences, hpaths,
    hwebhooks]

end Document.Paired

-- ================================================================ answers

/-- The same error, or values that are related. -/
inductive Answers {ε α : Type} (P : α → α → Prop) :
    Except ε α → Except ε α → Prop
  | ok {a a' : α} : P a a' → Answers P (.ok a) (.ok a')
  | error (e : ε) : Answers P (.error e) (.error e)

/-- Related answers are related when they are gone on with alike. -/
theorem Answers.bind {ε : Type} {P : α → α → Prop} {Q : β → β → Prop}
    {r r' : Except ε α} {f f' : α → Except ε β} (h : Answers P r r')
    (hf : ∀ a a', P a a' → Answers Q (f a) (f' a')) :
    Answers Q (r.bind f) (r'.bind f') := by
  cases h with
  | ok ha => exact hf _ _ ha
  | error e => exact .error e

/-- Components of the same kind that are paired. -/
inductive Component.Paired (S : Schema → Schema → Prop) :
    Component → Component → Prop
  | schema {s s' : Schema} : S s s' → Paired S (.schema s) (.schema s')
  | response {r r' : Response} :
      Response.Paired S r r' → Paired S (.response r) (.response r')
  | parameter {p p' : Parameter} :
      Parameter.Paired S p p' → Paired S (.parameter p) (.parameter p')
  | requestBody {b b' : RequestBody} :
      RequestBody.Paired S b b' → Paired S (.requestBody b) (.requestBody b')

theorem Component.Paired.kind {c c' : Component}
    (h : Component.Paired S c c') : c.kind = c'.kind := by
  cases h <;> rfl

/-- Paired components, or the same pointer. -/
inductive Slot.Paired (S : Schema → Schema → Prop) : Slot → Slot → Prop
  | component {c c' : Component} :
      Component.Paired S c c' → Paired S (.component c) (.component c')
  | pointer (target : String) : Paired S (.pointer target) (.pointer target)

/-- Paired components at the same address. -/
structure Found.Paired (S : Schema → Schema → Prop) (f f' : Found) : Prop where
  address : f.address = f'.address
  component : Component.Paired S f.component f'.component

theorem Table.Alike.get? {P : α → α → Prop} {t t' : Table α}
    (h : Table.Alike P t t') (k : String) :
    Option.Rel P (t.get? k) (t'.get? k) :=
  (Table.alike_iff_matched.1 h).get? k

/-- The targets of entries that are alike are the same. -/
theorem Table.Alike.targets {P : α → α → Prop} {t t' : Table (Referable α)}
    (h : Table.Alike (Referable.Alike P) t t') :
    t.filterMap (fun e => Components.targetOf? e.2)
      = t'.filterMap fun e => Components.targetOf? e.2 := by
  induction h with
  | nil => rfl
  | cons he _ ih =>
      cases he with
      | intro ha =>
          cases ha with
          | pointer target => exact congrArg (target :: ·) ih
          | inline _ => exact ih

namespace Components.Paired

variable {c c' : Components}

theorem targets (h : Components.Paired S c c') : c.targets = c'.targets := by
  rw [Components.targets, Components.targets, h.responses.targets,
    h.parameters.targets, h.requestBodies.targets]

/-- Related entries of a table are paired slots. -/
theorem slotOf {P : α → α → Prop} {wrap : α → Component}
    {o o' : Option (Referable α)} (h : Option.Rel (Referable.Alike P) o o')
    (hwrap : ∀ a a', P a a' → Component.Paired S (wrap a) (wrap a')) :
    Option.Rel (Slot.Paired S) (o.map (Components.slotOf wrap))
      (o'.map (Components.slotOf wrap)) := by
  cases h with
  | none => exact .none
  | some he =>
      cases he with
      | pointer target => exact .some (.pointer target)
      | inline ha => exact .some (.component (hwrap _ _ ha))

/-- What stands at an address is paired. -/
theorem slot? (h : Components.Paired S c c') (a : Address) :
    Option.Rel (Slot.Paired S) (c.slot? a) (c'.slot? a) := by
  rw [Components.slot?, Components.slot?]
  cases a.kind with
  | schema =>
      dsimp only
      have hget := h.schemas.get? a.name
      generalize c.schemas.get? a.name = found,
        c'.schemas.get? a.name = found' at hget
      cases hget with
      | none => exact .none
      | some hs => exact .some (.component (.schema hs))
  | response => exact slotOf (h.responses.get? a.name) fun _ _ => .response
  | parameter => exact slotOf (h.parameters.get? a.name) fun _ _ => .parameter
  | requestBody =>
      exact slotOf (h.requestBodies.get? a.name) fun _ _ => .requestBody

end Components.Paired

namespace Document.Paired

variable {d d' : Document}

/-- A pointer finds paired entries, or fails alike. -/
theorem lookUp (h : Document.Paired S d d') (p : String) :
    Answers (Keyed (Slot.Paired S)) (d.lookUp p) (d'.lookUp p) := by
  rw [Document.lookUp, Document.lookUp]
  cases Pointer.parse p with
  | error e => exact .error e
  | ok a =>
      simp only [bind, Except.bind]
      have hslot := h.shared.slot? a
      generalize d.shared.slot? a = slot, d'.shared.slot? a = slot' at hslot
      cases hslot with
      | none => exact .error _
      | some hslot => exact .ok (.intro hslot)

/-- Paired entries are of the demanded kind, or neither is. -/
theorem demand {f f' : Found} (h : Found.Paired S f f') (expected : EntryKind)
    (p : String) :
    Answers (Found.Paired S) (Document.demand expected p f)
      (Document.demand expected p f') := by
  rw [Document.demand, Document.demand, h.component.kind]
  split
  · exact .ok h
  · exact .error _

/-- A pointer is followed alike. The induction is on the pointers that may
still be passed; these are the same on both sides. -/
theorem follow (h : Document.Paired S d d') (unvisited : List String)
    (p : String) :
    Answers (Found.Paired S) (d.follow unvisited p)
      (d'.follow unvisited p) := by
  induction hn : unvisited.length using Nat.strong_induction_on
    generalizing unvisited p with | h n ih => ?_
  have hlookUp := h.lookUp p
  generalize hl : d.lookUp p = found, hl' : d'.lookUp p = found' at hlookUp
  cases hlookUp with
  | error e =>
      rw [follow_of_fault (lookUp_eq_error_iff.1 hl),
        follow_of_fault (lookUp_eq_error_iff.1 hl')]
      exact .error e
  | ok hfound =>
      obtain ⟨hslot⟩ := hfound
      have hentry := lookUp_eq_ok_iff.1 hl
      have hentry' := lookUp_eq_ok_iff.1 hl'
      -- a component ends the chain on both sides, and a reference has the same target
      -- on both
      cases hslot with
      | component hc =>
          rw [follow_of_component hentry, follow_of_component hentry']
          exact .ok ⟨rfl, hc⟩
      | pointer target =>
          by_cases ht : target ∈ unvisited
          · have hless : (unvisited.erase target).length < n := by
              have hpos := List.length_pos_of_mem ht
              rw [← hn, List.length_erase_of_mem ht]
              omega
            rw [follow_of_pointer hentry ht, follow_of_pointer hentry' ht]
            exact (ih _ hless _ target rfl).bind fun f f' hf =>
              demand hf _ target
          · rw [follow_of_struck hentry ht, follow_of_struck hentry' ht]
            exact .error _

theorem resolve (h : Document.Paired S d d') (p : String) :
    Answers (Found.Paired S) (d.resolve p) (d'.resolve p) := by
  rw [Document.resolve, Document.resolve, unvisitedAfter, unvisitedAfter,
    h.shared.targets]
  exact h.follow _ p

/-- A pointer resolves to paired entries of a kind, or fails alike. -/
theorem resolveAs (h : Document.Paired S d d') (expected : EntryKind)
    (p : String) :
    Answers (Found.Paired S) (d.resolveAs expected p)
      (d'.resolveAs expected p) :=
  (h.resolve p).bind fun _ _ hf => demand hf expected p

/-- A pointer resolves to related schemas, or fails alike. -/
theorem resolveSchema (h : Document.Paired S d d') (p : String) :
    Answers S (d.resolveSchema p) (d'.resolveSchema p) := by
  refine (h.resolve p).bind fun ⟨a, c⟩ ⟨a', c'⟩ ⟨_, hc⟩ => ?_
  cases hc with
  | schema hs => exact .ok hs
  | _ => exact .error _

/-- A pointer resolves to paired parameters, or fails alike. -/
theorem resolveParameter (h : Document.Paired S d d') (p : String) :
    Answers (Parameter.Paired S) (d.resolveParameter p)
      (d'.resolveParameter p) := by
  refine (h.resolve p).bind fun ⟨a, c⟩ ⟨a', c'⟩ ⟨_, hc⟩ => ?_
  cases hc with
  | parameter hp => exact .ok hp
  | _ => exact .error _

/-- A pointer resolves to paired responses, or fails alike. -/
theorem resolveResponse (h : Document.Paired S d d') (p : String) :
    Answers (Response.Paired S) (d.resolveResponse p)
      (d'.resolveResponse p) := by
  refine (h.resolve p).bind fun ⟨a, c⟩ ⟨a', c'⟩ ⟨_, hc⟩ => ?_
  cases hc with
  | response hr => exact .ok hr
  | _ => exact .error _

/-- A pointer resolves to paired bodies, or fails alike. -/
theorem resolveRequestBody (h : Document.Paired S d d') (p : String) :
    Answers (RequestBody.Paired S) (d.resolveRequestBody p)
      (d'.resolveRequestBody p) := by
  refine (h.resolve p).bind fun ⟨a, c⟩ ⟨a', c'⟩ ⟨_, hc⟩ => ?_
  cases hc with
  | requestBody hb => exact .ok hb
  | _ => exact .error _

end Document.Paired

-- ================================================================== check

namespace Resolver

variable {d d' : Document}

/-- A reference resolves in both of two paired documents, or fails in both for
the same reason. -/
theorem answer_paired (h : Document.Paired S d d') (o : Occurrence) :
    Answers (Found.Paired S) (Resolver.resolveAs d o.kind o.pointer []).1
      (Resolver.resolveAs d' o.kind o.pointer []).1 := by
  rw [(sound_nil d).resolveAs_fst, (sound_nil d').resolveAs_fst]
  exact h.resolveAs o.kind o.pointer

/-- A reference resolves in both of two paired documents, or in neither. -/
theorem resolves_paired (h : Document.Paired S d d') (o : Occurrence) :
    Resolves d o ↔ Resolves d' o := by
  rw [resolves_iff, resolves_iff]
  match (Resolver.resolveAs d o.kind o.pointer []).1,
    (Resolver.resolveAs d' o.kind o.pointer []).1, answer_paired h o with
  | _, _, .ok _ => simp
  | _, _, .error e => simp

/-- A reference fails in two paired documents with the same errors. -/
theorem fails_paired (h : Document.Paired S d d') (o : Occurrence)
    (e : ReferenceError) : Fails d o e ↔ Fails d' o e := by
  rw [fails_iff, fails_iff]
  match (Resolver.resolveAs d o.kind o.pointer []).1,
    (Resolver.resolveAs d' o.kind o.pointer []).1, answer_paired h o with
  | _, _, .ok _ => simp
  | _, _, .error e' => simp

/-- The checks of paired documents with the same references say the same,
whatever their resolvers have met. -/
theorem checkReferences_paired {known known' : Resolver}
    (h : Document.Paired S d d') (ho : d.occurrences = d'.occurrences)
    (hknown : Sound d known) (hknown' : Sound d' known') :
    (checkReferences d known).1 = (checkReferences d' known').1 := by
  rw [checkReferences, checkReferences, ← ho]
  cases hrun : (checkAll d d.occurrences 0 known).1 with
  | ok n =>
      rw [checkAll_eq_ok_iff hknown] at hrun
      refine ((checkAll_eq_ok_iff hknown').2 ⟨fun o hmem => ?_, hrun.2⟩).symm
      exact (resolves_paired h o).1 (hrun.1 o hmem)
  | error e =>
      obtain ⟨before, o, after, hsplit, hfails, hbefore⟩ :=
        (checkAll_eq_error_iff hknown).1 hrun
      refine ((checkAll_eq_error_iff hknown').2 ⟨before, o, after, hsplit,
        (fails_paired h o e).1 hfails, fun o' hmem => ?_⟩).symm
      exact (resolves_paired h o').1 (hbefore o' hmem)

end Resolver

end ApiForge
