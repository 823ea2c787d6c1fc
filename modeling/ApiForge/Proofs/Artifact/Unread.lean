import ApiForge.Proofs.Artifact.Paired
import ApiForge.Proofs.Document.Canonical
/-!
What neither the reference check nor generation reads.

Two documents come to the same (`Document.SameOutcome`) if their references
are checked with one result and the same is generated from them under all
settings. This is so whenever their schemas are read alike
(`Document.Paired.sameOutcome`), and two relations of documents are cases of
it.

# Conventions

Whether a schema admits null can be spelled in several ways, and so can the
order and the number of its type names. Only the first name other than null
counts (`conventions_do_not_show`): the canonical form of a document comes to
the same as the document, and so does the newer spelling of an older document.

# Siblings

What stands beside a pointer is kept, and made canonical, but never read
(`siblings_do_not_show`). Documents that differ in nothing else come to the
same, although they may hold different numbers of schemas.
-/

namespace ApiForge

open Schema (AlikeInline ReadAlike SameRead nullName primaryType)

variable {d d' : Document}

-- ================================================================ outcomes

namespace Document

/-- The references of two documents are checked with the same result, whatever
their resolvers have been asked before, and the same is generated from the
documents. -/
structure SameOutcome (d d' : Document) : Prop where
  check : ∀ questions questions' : List Resolver.Question,
    (Resolver.checkReferences d (Resolver.askAll d questions []).2).1
      = (Resolver.checkReferences d'
          (Resolver.askAll d' questions' []).2).1
  generate : ∀ s : Settings, s.generate d = s.generate d'

/-- Documents whose schemas are read alike come to the same. -/
theorem Paired.sameOutcome (h : Document.Paired ReadAlike d d') :
    d.SameOutcome d' where
  check := by
    intro questions questions'
    have hoccurrences :=
      (h.imp fun _ _ _ _ hss => hss.sameOccurrences).occurrences
    exact Resolver.checkReferences_paired h hoccurrences
      (Resolver.sound_askAll d questions) (Resolver.sound_askAll d' questions')
  generate := h.sameShape.generate

/-- The version that a document names has no part in a pairing. -/
theorem Paired.of_openapi {S : Schema → Schema → Prop} {version : String}
    (h : Document.Paired S d { d' with openapi := version }) :
    Document.Paired S d d' := by
  refine ⟨h.components, h.paths, h.webhooks, ?_⟩
  have hframe := congrArg
    (fun (x : Document) => { x with openapi := d'.openapi }) h.frame
  exact hframe

end Document

-- ============================================================= conventions

namespace Schema

/-- The schema with other type names and another flag, the first of the names
other than null being the same. What stands in it is left open. -/
structure Respelled (s s' : Schema) : Prop where
  primary : primaryType s.types = primaryType s'.types
  frame : s' = { s with
    types := s'.types, nullable := s'.nullable
    properties := s'.properties, items := s'.items
    additional := s'.additional, allOf := s'.allOf, oneOf := s'.oneOf
    anyOf := s'.anyOf, negated := s'.negated }

/-- The schema in the newer spelling: null stands among the type names,
anywhere, if a name or the flag admitted it, and there is no flag. -/
structure Modernized (s s' : Schema) : Prop where
  names : s'.types.filter (· != nullName) = s.types.filter (· != nullName)
  admits : nullName ∈ s'.types ↔ nullName ∈ s.types ∨ s.nullable = some true
  flag : s'.nullable = none
  frame : s' = { s with
    types := s'.types, nullable := s'.nullable
    properties := s'.properties, items := s'.items
    additional := s'.additional, allOf := s'.allOf, oneOf := s'.oneOf
    anyOf := s'.anyOf, negated := s'.negated }

variable {s s' : Schema}

/-- A schema in canonical form is spelled anew. -/
theorem Canonized.respelled (h : Canonized s s') : Respelled s s' where
  primary := by
    rw [(Prod.mk.inj h.names).1, primaryType_canonicalTypes]
  frame := by
    obtain ⟨htypes, hflag⟩ := Prod.mk.inj h.names
    rw [htypes, hflag]
    exact h

theorem Modernized.respelled (h : Modernized s s') : Respelled s s' where
  primary := by rw [primaryType_eq, primaryType_eq, h.names]
  frame := h.frame

/-- Schemas that are spelled differently are read alike. -/
theorem Respelled.sameRead (h : Respelled s s') :
    s.pointer = s'.pointer ∧ SameRead s s' := by
  obtain ⟨hprimary, hframe⟩ := h
  refine ⟨?_, hprimary, ?_, ?_, ?_, ?_⟩ <;> rw [hframe]

end Schema

namespace Document

/-- Documents that differ only in the versions that they name and, at any of
their schemas, in the type names and the flag, the first of the names other
than null being the same. -/
def Respelled (d d' : Document) : Prop :=
  Document.Alike Schema.Respelled d { d' with openapi := d.openapi }

/-- A document in the newer spelling, under whatever version it goes. -/
def Modernized (d d' : Document) : Prop :=
  Document.Alike Schema.Modernized d { d' with openapi := d.openapi }

/-- Documents that differ in the spelling of schemas have the same shapes. -/
theorem paired_of_alike {R : Schema → Schema → Prop} {version : String}
    (hR : ∀ s s', R s s' → Schema.Respelled s s')
    (h : Document.Alike R d { d' with openapi := version }) :
    Document.Paired ReadAlike d d' :=
  (h.paired.imp fun _ _ _ _ hss => hss.alikeInline fun s s' hnode =>
    (hR s s' hnode).sameRead).of_openapi

/-- Conventions do not show. A document and one that differs from it only in
the version that it names and in the spelling of its type names, the first
name other than null being the same in each schema, are checked with the same
result, and the same is generated from both. So it is in particular with the
canonical form of a document, and with its newer spelling. -/
theorem conventions_do_not_show (d : Document) :
    (∀ d', d.Respelled d' → d.SameOutcome d')
      ∧ d.SameOutcome d.canonical.1
      ∧ ∀ d', d.Modernized d' → d.SameOutcome d' := by
  refine ⟨fun d' h => ?_, ?_, fun d' h => ?_⟩
  · exact (paired_of_alike (fun _ _ => id) h).sameOutcome
  · have h : Document.Alike Schema.Canonized d
        { d.canonical.1 with openapi := d.canonical.1.openapi } :=
      d.canonical_settles.1
    exact (paired_of_alike (fun _ _ => Schema.Canonized.respelled) h).sameOutcome
  · exact (paired_of_alike (fun _ _ => Schema.Modernized.respelled) h).sameOutcome

-- a nullable name, spelled in the older and in the newer way

/-- A record with one property. -/
def recordOf (name : String) (property : Schema) : Schema where
  types := ["object"]
  properties := [(name, property)]

/-- A document of people with names. -/
def people (version : String) (name : Schema) : Document where
  openapi := version
  info := { title := "People", version := "1" }
  components := some { schemas := [("Person", recordOf "name" name)] }

def olderName : Schema where
  types := ["string"]
  nullable := some true

def newerName : Schema where
  types := ["null", "string"]

/-- The older spelling of a name is rewritten to the newer one. -/
theorem modernized_people :
    (people "3.0.3" olderName).Modernized (people "3.1.0" newerName) := by
  have name : Schema.Alike Schema.Modernized olderName newerName :=
    .intro ⟨by decide, by decide, rfl, rfl⟩ .nil .none .none .nil .nil .nil
      .none
  have person : Schema.Alike Schema.Modernized (recordOf "name" olderName)
      (recordOf "name" newerName) :=
    .intro ⟨rfl, by decide, rfl, rfl⟩ (.cons (.intro name) .nil) .none .none
      .nil .nil .nil .none
  refine ⟨.some ?_, .none, .nil, rfl⟩
  exact ⟨.cons (.intro person) .nil, .nil, .nil, .nil, rfl⟩

/-- The same is generated from both spellings, and generation does not
fail. -/
theorem conventions_do_not_show_people :
    (people "3.0.3" olderName).Modernized (people "3.1.0" newerName)
      ∧ ∃ artifacts,
        ({} : Settings).generate (people "3.0.3" olderName) = .ok artifacts
          ∧ ({} : Settings).generate (people "3.1.0" newerName)
            = .ok artifacts := by
  obtain ⟨-, -, hnewer⟩ := conventions_do_not_show (people "3.0.3" olderName)
  have hsame := hnewer _ modernized_people
  have hok : (({} : Settings).generate (people "3.0.3" olderName)).toBool
      = true := by
    decide +kernel
  refine ⟨modernized_people, ?_⟩
  cases hrun : ({} : Settings).generate (people "3.0.3" olderName) with
  | error e => rw [hrun] at hok; cases hok
  | ok artifacts => exact ⟨artifacts, rfl, (hsame.generate {}).symm.trans hrun⟩

end Document

-- ================================================================ siblings

namespace Schema

/-- The schema, but for what stands in it. -/
def SameNode (s s' : Schema) : Prop :=
  s' = { s with
    properties := s'.properties, items := s'.items
    additional := s'.additional, allOf := s'.allOf, oneOf := s'.oneOf
    anyOf := s'.anyOf, negated := s'.negated }

theorem SameNode.sameRead {s s' : Schema} (h : SameNode s s') :
    SameRead s s' := by
  refine ⟨?_, ?_, ?_, ?_, ?_⟩ <;> rw [h]

/-- Two schemas that differ only in what stands beside pointers. -/
abbrev SameButSiblings : Schema → Schema → Prop :=
  AlikeInline SameNode

theorem SameButSiblings.readAlike {s s' : Schema}
    (h : SameButSiblings s s') : ReadAlike s s' :=
  h.mono fun _ _ => SameNode.sameRead

end Schema

namespace Document

/-- Documents that differ only in what stands beside the pointers of their
schemas. -/
structure SameButSiblings (d d' : Document) : Prop where
  paired : Document.Paired Schema.SameButSiblings d d'
  openapi : d.openapi = d'.openapi

/-- Validation does not see what stands beside references. -/
theorem SameButSiblings.validate (h : d.SameButSiblings d') :
    d.validate = d'.validate := by
  have hinfo : d.info = d'.info := (congrArg (·.info) h.paired.frame).symm
  have hpaths : d.paths.isNone = d'.paths.isNone := by
    match d.paths, d'.paths, h.paired.paths with
    | _, _, .none => rfl
    | _, _, .some _ => rfl
  have hcomponents : d.components.isNone = d'.components.isNone := by
    match d.components, d'.components, h.paired.components with
    | _, _, .none => rfl
    | _, _, .some _ => rfl
  rw [Document.validate, Document.validate, h.openapi, hinfo, hpaths,
    hcomponents]

/-- Siblings do not show. Two documents that differ only in what stands beside
the pointers of their schemas are validated and checked with the same result,
and the same is generated from both. Schemas of theirs that differ only so have
the same shape, or no finite one both, and the same names stand for records and
for scalars. -/
theorem siblings_do_not_show {d d' : Document} (h : d.SameButSiblings d') :
    d.validate = d'.validate
      ∧ d.SameOutcome d'
      ∧ (∀ s ∈ d.nodes, ∀ s' ∈ d'.nodes, Schema.SameButSiblings s s' →
          d.shape? s = d'.shape? s')
      ∧ Option.Rel
          (fun c c' : Catalog => c.isRecord = c'.isRecord
            ∧ c.isScalar = c'.isScalar)
          (Catalog.ofDocument? d) (Catalog.ofDocument? d') := by
  have hread : Document.Paired ReadAlike d d' :=
    h.paired.imp fun _ _ _ _ hss => hss.readAlike
  refine ⟨h.validate, hread.sameOutcome, fun s hs s' hs' hss =>
    hread.shape? hss.readAlike hs hs', ?_⟩
  exact rel_imp (Catalog.ofDocument?_paired hread.sameShape)
    fun _ _ _ _ hc => ⟨hc.isRecord, hc.isScalar⟩

-- a pointer with and without something beside it

/-- A document of numbers, and records that hold one. -/
def readings (level : Schema) : Document where
  openapi := "3.1.0"
  info := { title := "Readings", version := "1" }
  components := some { schemas :=
    [("Level", .ofType "integer"), ("Reading", recordOf "level" level)] }

def bareLevel : Schema :=
  .ofPointer "#/components/schemas/Level"

/-- Beside the pointer stand another type, a description, and a pointer that
leads nowhere. -/
def annotatedLevel : Schema :=
  { bareLevel with
    types := ["object"], description := some "The level."
    properties := [("next", .ofPointer "#/components/schemas/None")] }

/-- The two readings differ beside a reference only. -/
theorem sameButSiblings_readings :
    (readings bareLevel).SameButSiblings (readings annotatedLevel) := by
  have number : Schema.SameButSiblings (.ofType "integer") (.ofType "integer") :=
    .inline rfl rfl rfl .nil .none .none .nil .nil .nil .none
  have level : Schema.SameButSiblings bareLevel annotatedLevel :=
    .pointer (p := "#/components/schemas/Level") (by decide) (by decide)
  have reading : Schema.SameButSiblings (recordOf "level" bareLevel)
      (recordOf "level" annotatedLevel) :=
    .inline rfl rfl rfl (.cons (.intro level) .nil) .none .none .nil .nil .nil
      .none
  refine ⟨⟨.some ?_, .none, .nil, rfl⟩, rfl⟩
  exact ⟨.cons (.intro number) (.cons (.intro reading) .nil), .nil, .nil, .nil,
    rfl⟩

/-- Both pass the check, with one reference each, and the same is generated
from them, although they do not hold equally many schemas. -/
theorem siblings_do_not_show_readings :
    (readings bareLevel).SameButSiblings (readings annotatedLevel)
      ∧ (readings bareLevel).schemaCount < (readings annotatedLevel).schemaCount
      ∧ (readings bareLevel).checkReferences = .ok 1
      ∧ (readings annotatedLevel).checkReferences = .ok 1
      ∧ ∃ artifacts,
        ({} : Settings).generate (readings bareLevel) = .ok artifacts
          ∧ ({} : Settings).generate (readings annotatedLevel)
            = .ok artifacts := by
  obtain ⟨-, hsame, -, -⟩ := siblings_do_not_show sameButSiblings_readings
  have hcheck : (readings bareLevel).checkReferences = .ok 1 := by
    decide +kernel
  have hok : (({} : Settings).generate (readings bareLevel)).toBool = true := by
    decide +kernel
  refine ⟨sameButSiblings_readings, by decide +kernel, hcheck,
    (hsame.check [] []).symm.trans hcheck, ?_⟩
  cases hrun : ({} : Settings).generate (readings bareLevel) with
  | error e => rw [hrun] at hok; cases hok
  | ok artifacts => exact ⟨artifacts, rfl, (hsame.generate {}).symm.trans hrun⟩

end Document

end ApiForge
