import ApiForge.Proofs.Document.PropertyOrder
import ApiForge.Proofs.Identifier.Legal
import ApiForge.Proofs.Shape.Members
import ApiForge.Proofs.Text.Utf8
/-!
What is said by the shape of a schema.

`Document.Describes` relates schemas to well-formed shapes of them, at every
depth. It is a relation on the two and knows nothing of how a shape is found: a
pointer is described by a name, a closed set of texts by its own literals, and a
record by one field for each property, where those of a merged record are the
properties of the merge. Each shape inside is paired with the schema that it
describes, which is why a record carries the pairs of its properties and fields.

Every shape that is found describes its schema (`describes_of_shapeWithin?`). The
induction is on the depth, since the properties of a merge stand in other
components and not in the schema.
-/

namespace ApiForge

-- ================================================ statement vocabulary

/-- Fields stand for properties: there is one for each of them, in the byte order
of the names, and those are required that are listed. -/
structure StandsForProperties (properties : Table Schema)
    (required : List String) (fields : List Field) : Prop where
  order : fields.Pairwise fun f g =>
    Text.Utf8.bytes f.name < Text.Utf8.bytes g.name
  names : fields.map (·.name) = properties.keys
  required : ∀ f ∈ fields, f.required = true ↔ f.name ∈ required

/-- A shape has nothing inside, mentions no name and lists no literals. -/
def Shape.IsPlain : Shape → Prop
  | .named _ | .list _ | .map _ | .record _ | .choice _ => False
  | _ => True

namespace Document

/-- A shape describes a schema, and is well formed at every depth. -/
inductive Describes (d : Document) : Schema → Shape → Prop
  /-- A pointer has a name that begins with a letter. -/
  | named {s : Schema} {pointer name : String} :
      s.pointer = some pointer → Identifier.IsExported name →
      Describes d s (.named name)
  /-- A single member beside which no properties stand is the schema itself. -/
  | single {s m : Schema} {shape : Shape} :
      s.pointer = none → s.allOf = [m] → s.properties = [] →
      Describes d m shape → Describes d s shape
  /-- Other members are merged. -/
  | merged {s : Schema} {fields : List Field} :
      s.Merges →
      StandsForProperties (Declaration.allProperties (d.merge s))
        ((d.merge s).flatMap (·.required)) fields →
      (∀ e f, (e, f) ∈ (Declaration.allProperties (d.merge s)).zip fields →
        Describes d e.2 f.shape) →
      Describes d s (.record fields)
  /-- Without members, the properties are those that the schema declares. -/
  | record {s : Schema} {fields : List Field} :
      s.pointer = none → s.allOf = [] →
      StandsForProperties s.properties s.required fields →
      (∀ e f, (e, f) ∈ s.properties.zip fields → Describes d e.2 f.shape) →
      Describes d s (.record fields)
  | list {s item : Schema} {shape : Shape} :
      s.pointer = none → s.allOf = [] → s.items = some item →
      Describes d item shape → Describes d s (.list shape)
  | anyList {s : Schema} :
      s.pointer = none → s.allOf = [] → s.items = none →
      Describes d s (.list .any)
  | map {s value : Schema} {shape : Shape} :
      s.pointer = none → s.allOf = [] → s.properties = [] →
      s.additional = some (.shaped value) → Describes d value shape →
      Describes d s (.map shape)
  | anyMap {s : Schema} :
      s.pointer = none → s.allOf = [] → s.properties = [] →
      (∀ value, s.additional ≠ some (.shaped value)) →
      Describes d s (.map .any)
  /-- The literals that are texts, each in the place where it first stands. -/
  | choice {s : Schema} {literals : List String} :
      s.pointer = none → s.allOf = [] → literals ≠ [] →
      Distinct.FirstOccurrences s.textLiterals literals →
      Describes d s (.choice literals)
  | plain {s : Schema} {shape : Shape} :
      s.pointer = none → s.allOf = [] → shape.IsPlain → Describes d s shape

end Document

-- =============================================================== names

namespace Schema

/-- A pointer has a name, whatever it leads to. -/
theorem isExported_nameOfPointer (pointer : String) :
    Identifier.IsExported (nameOfPointer pointer) := by
  have hmark : Identifier.IsExported "T" := by decide
  have hempty : Identifier.IsExported "Schema" := by decide
  rw [nameOfPointer, Identifier.typeName]
  rcases Identifier.exportedOr_cases hmark "Schema" (Pointer.lastName pointer)
    with ⟨-, hname⟩ | ⟨hname, -⟩
  · rw [hname]
    exact hempty
  · exact hname

end Schema

-- ============================================================== fields

variable {shapeOf : Schema → Option Shape} {properties : Table Schema}
  {required : List String} {fields : List Field} {shape : Shape}

/-- Fields that are made from properties in order stand for them. -/
theorem standsForProperties_of_fields (hsorted : properties.Sorted)
    (h : List.Forall₂ (fun e f => ∃ x, shapeOf e.2 = some x
      ∧ f = Schema.fieldOf required e x) properties fields) :
    StandsForProperties properties required fields := by
  have hnames : fields.map (·.name) = properties.keys := Made.names_of_fields h
  refine ⟨?_, hnames, fun f hf => ?_⟩
  · have hkeys : (fields.map (·.name)).Pairwise (· < ·) := by
      rw [hnames]
      exact Table.sorted_iff_keys.1 hsorted
    exact (List.pairwise_map.1 hkeys).imp Text.Utf8.bytes_lt
  · obtain ⟨e, -, x, -, rfl⟩ := exists_of_forall₂ h.flip f hf
    exact List.contains_iff_mem

/-- A record that is made from properties in order stands for them, and each
field has the shape of its property. -/
theorem fields_of_sorted (hsorted : properties.Sorted)
    (h : Schema.recordShape? shapeOf properties required = some shape) :
    ∃ fields, shape = .record fields
      ∧ StandsForProperties properties required fields
      ∧ ∀ e f, (e, f) ∈ properties.zip fields → shapeOf e.2 = some f.shape := by
  obtain ⟨fields, hshape, hfields⟩ := Made.fields_of_recordShape? h
  refine ⟨fields, hshape, standsForProperties_of_fields hsorted hfields, ?_⟩
  intro e f hmem
  obtain ⟨x, hx, rfl⟩ := (List.forall₂_iff_zip.1 hfields).2 hmem
  exact hx

-- ============================================================== shapes

namespace Document

variable {d : Document} {s : Schema}

section Plain

variable (hp : s.pointer = none) (hmembers : s.allOf = [])
include hp hmembers

/-- The shape of a text describes a schema of texts. -/
theorem describes_textShape (format : Option String) :
    d.Describes s (Schema.textShape format s.textLiterals) := by
  unfold Schema.textShape
  split
  · exact .plain hp hmembers trivial
  · exact .plain hp hmembers trivial
  · split
    · exact .plain hp hmembers trivial
    · rename_i hliterals
      have hfirst := Distinct.firstOccurrences_eraseDups s.textLiterals
      refine .choice hp hmembers (fun hnone => ?_) hfirst
      -- a literal that is given is kept, so there would be none
      refine hliterals (List.isEmpty_iff.2 ?_)
      refine List.eq_nil_iff_forall_not_mem.2 fun a ha => ?_
      rw [← hfirst.members, hnone] at ha
      exact List.not_mem_nil ha

variable (hsorted : Table.Sorted s.properties)
  (hinside : ∀ c ∈ s.children, ∀ x, shapeOf c = some x → d.Describes c x)
include hsorted hinside

/-- The shape that is made for an object describes the schema. -/
theorem describes_objectShape? (h : s.objectShape? shapeOf = some shape) :
    d.Describes s shape := by
  unfold Schema.objectShape? at h
  split at h
  · rename_i hempty
    rw [List.isEmpty_iff] at hempty
    split at h
    · rename_i value hvalue
      obtain ⟨x, hx, rfl⟩ := Option.map_eq_some_iff.1 h
      have hchild : value ∈ s.children := by
        simp [Schema.children, Schema.additionalSchema?, hvalue]
      exact .map hp hmembers hempty hvalue (hinside value hchild x hx)
    · rename_i hother
      cases h
      exact .anyMap hp hmembers hempty hother
  · obtain ⟨fields, rfl, hstands, hshapes⟩ := fields_of_sorted hsorted h
    refine .record hp hmembers hstands fun e f hmem => ?_
    have hproperty : e ∈ s.properties := (List.of_mem_zip hmem).1
    have hchild : e.2 ∈ s.children := by
      simp only [Schema.children, List.mem_append, List.mem_map, or_assoc]
      exact .inl ⟨e, hproperty, rfl⟩
    exact hinside e.2 hchild f.shape (hshapes e f hmem)

/-- The shape that is made of a schema without members describes it. -/
theorem describes_plainShape? (h : s.plainShape? shapeOf = some shape) :
    d.Describes s shape := by
  unfold Schema.plainShape? at h
  -- literals first, then by the primary type, in the order in which the mapper asks
  split at h
  · cases h
    exact .plain hp hmembers trivial
  · split at h
    · split at h
      · rename_i item hitem
        obtain ⟨x, hx, rfl⟩ := Option.map_eq_some_iff.1 h
        have hchild : item ∈ s.children := by
          simp [Schema.children, hitem]
        exact .list hp hmembers hitem (hinside item hchild x hx)
      · rename_i hnone
        cases h
        exact .anyList hp hmembers hnone
    · exact describes_objectShape? hp hmembers hsorted hinside h
    · cases h
      exact describes_textShape hp hmembers s.format
    · cases h
      refine .plain hp hmembers ?_
      split <;> trivial
    · cases h
      refine .plain hp hmembers ?_
      split <;> trivial
    · cases h
      exact .plain hp hmembers trivial
    · cases h
      exact .plain hp hmembers trivial
    · split at h
      · cases h
        exact .plain hp hmembers trivial
      · exact describes_objectShape? hp hmembers hsorted hinside h

end Plain

/-- The shape of a schema that is merged describes it, if shapes describe what
the merge brings together. -/
theorem describes_mergedShape? (hm : s.Merges)
    (hinside : ∀ c ∈ d.mergedParts s, ∀ x, shapeOf c = some x → d.Describes c x)
    (h : d.mergedShape? shapeOf s = some shape) : d.Describes s shape := by
  obtain ⟨fields, rfl, hstands, hshapes⟩ :=
    fields_of_sorted (Table.sorted_ofList _) h
  refine .merged hm hstands fun e f hmem => ?_
  have hpart : e.2 ∈ d.mergedParts s :=
    List.mem_map.2 ⟨e, (List.of_mem_zip hmem).1, rfl⟩
  exact hinside e.2 hpart f.shape (hshapes e f hmem)

/-- The order of properties passes on to all that a merge brings together. -/
theorem hereditary_inOrder (hd : AllInOrder d.nodes) :
    Hereditary d Schema.InOrder where
  component e he := hd e.2 ((hereditary_nodes d).component e he)
  inside _ h _ _ hc := h.child hc

/-- Where shapes describe the parts of a schema, the shape made from them
describes the schema. -/
theorem describes_shapeStep? (hd : AllInOrder d.nodes) (hs : s.InOrder)
    (hinside : ∀ c, c.InOrder → ∀ x, shapeOf c = some x → d.Describes c x)
    (h : d.shapeStep? shapeOf s = some shape) : d.Describes s shape := by
  unfold shapeStep? at h
  cases hp : s.pointer with
  | some pointer =>
      rw [hp] at h
      cases h
      exact .named hp (Schema.isExported_nameOfPointer pointer)
  | none =>
      rw [hp] at h
      dsimp only at h
      -- several members are merged, and so is a single one with properties beside it
      have hmerged : s.Merges → d.mergedShape? shapeOf s = some shape →
          d.Describes s shape := by
        intro hm hshape
        refine describes_mergedShape? hm (fun c hc => hinside c ?_) hshape
        exact (hereditary_inOrder hd).mergedParts hs hp c hc
      split at h
      · rename_i hnone
        exact describes_plainShape? hp hnone hs.properties
          (fun c hc => hinside c (hs.child hc)) h
      · rename_i m hone
        split at h
        · rename_i hempty
          have hchild : m ∈ s.children := by
            simp [Schema.children, hone]
          exact .single hp hone (List.isEmpty_iff.1 hempty)
            (hinside m (hs.child hchild) shape h)
        · rename_i hproperties
          have hne : s.allOf ≠ [] := by
            rw [hone]
            exact List.cons_ne_nil _ _
          exact hmerged ⟨hp, hne, fun hempty => absurd hempty hproperties⟩ h
      · rename_i hnone hsingle
        exact hmerged ⟨hp, hnone, fun _ => hsingle⟩ h

-- ========================================================= main result

/-- Whatever shape is found for a schema, to whatever depth, describes the schema,
if the properties of schemas stand in key order. They do in all documents that
are loaded. -/
theorem describes_of_shapeWithin? {d : Document} (hd : AllInOrder d.nodes)
    {s : Schema} (hs : s.InOrder) {depth : Nat} {shape : Shape}
    (h : d.shapeWithin? depth s = some shape) : d.Describes s shape := by
  induction depth generalizing s shape with
  | zero => cases h
  | succ depth ih =>
      rw [shapeWithin?_succ] at h
      exact describes_shapeStep? hd hs (fun c hc x hx => ih hc hx) h

-- =============================================================== a stable

/-- What every animal of the stable has. -/
def stabledSchema : Schema where
  properties := [("box", .ofType "integer"),
    ("owner", .ofPointer "#/components/schemas/2nd-owner")]
  required := ["box"]

/-- The schema of a horse. It is stabled, has a coat, and has won races. -/
def horseSchema : Schema where
  allOf := [.ofPointer "#/components/schemas/Stabled",
    { properties :=
        [("coat",
          { types := ["string"]
            literals := [.str "bay", .str "grey", .str "bay"] })] }]
  properties :=
    [("races", { types := ["array"], items := some (.ofType "object") })]

def stable : Document where
  openapi := "3.1.0"
  info := { title := "Stable", version := "1" }
  components := some
    { schemas :=
      [("2nd-owner", .ofType "object"), ("Horse", horseSchema),
       ("Stabled", stabledSchema)] }

/-- The schemas of the stable are in order. -/
theorem inOrder_stable : AllInOrder stable.nodes := by
  refine allInOrder_nodes.2 ?_
  have hsorted : ∀ s ∈ stable.roots, ∀ q ∈ s.nodes,
      q.properties.Pairwise fun a b => a.1 < b.1 := by
    decide +kernel
  exact hsorted

/-- A horse has a record, merged from the fields of two members and its own. -/
theorem describes_horse : AllInOrder stable.nodes ∧ horseSchema.InOrder
    ∧ ∃ fields, stable.shapeWithin? 4 horseSchema = some (.record fields)
      ∧ fields.map (·.name) = ["box", "coat", "owner", "races"]
      ∧ stable.Describes horseSchema (.record fields) := by
  have hcomponent : ("Horse", horseSchema) ∈ stable.schemas :=
    List.mem_cons_of_mem _ (List.mem_cons_self ..)
  have hs : horseSchema.InOrder :=
    (hereditary_inOrder inOrder_stable).component _ hcomponent
  have hnames : (stable.shapeWithin? 4 horseSchema).map fieldNames
      = some ["box", "coat", "owner", "races"] := by
    decide +kernel
  obtain ⟨shape, hshape, hfields⟩ := Option.map_eq_some_iff.1 hnames
  have hdescribes := describes_of_shapeWithin? inOrder_stable hs hshape
  cases shape with
  | record fields => exact ⟨inOrder_stable, hs, fields, hshape, hfields, hdescribes⟩
  | _ => cases hfields

end Document

end ApiForge
