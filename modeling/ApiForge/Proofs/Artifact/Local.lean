import ApiForge.Proofs.Artifact.Beside
import ApiForge.Proofs.Source.Depth
/-!
Adding a component schema is local.

A component schema more changes what is generated in one place of one file: the
types get its definition there, with what is hoisted while this is written, and
nothing else is written differently (`adding_a_component_is_local`). This is so
when no name that the component introduces is defined by the types already.
Otherwise the new definition or an old one would be passed over.

What could couple the new schema to the others, and does not: the pointers that
a merge follows, the depth from which shapes are sought, the closing of kinds
under aliases, and the names that have been given when a turn begins.
-/

namespace ApiForge

open Source (Step)

-- ================================================================ source

namespace Definition

open Source.Step (Balanced)

/-- The steps of a struct close what they open. -/
theorem balanced_structSteps (name : String) (fields : List StructField) :
    Balanced (structSteps name fields) := by
  have hfields : Balanced (fields.flatMap fun f =>
      [.doc f.description,
       .line (if f.required then "#[serde(rename = " ++ literal f.wire ++ ")]"
        else "#[serde(rename = " ++ literal f.wire
          ++ ", default, skip_serializing_if = \"Option::is_none\")]"),
       .line ("pub " ++ f.ident ++ ": " ++ f.type.text ++ ",")]) :=
    .flatMap fun f _ depth => by simp
  intro depth
  simp [structSteps, hfields _]

/-- The steps of an enum of literals close what they open. -/
theorem balanced_enumerationSteps (name : String) (literals : List String) :
    Balanced (enumerationSteps name literals) := by
  have hvariants : Balanced (literals.flatMap fun l =>
      [.line ("#[serde(rename = " ++ literal l ++ ")]"),
       .line (Identifier.variantName l ++ ",")]) :=
    .flatMap fun l _ depth => by simp
  intro depth
  simp [enumerationSteps, hvariants _, Balanced.lines _ _]

/-- The steps of every definition close what they open. -/
theorem balanced_steps (d : Definition) : Balanced d.steps := by
  intro depth
  rw [steps, Step.depthAfter_doc]
  cases d.body with
  | struct fields => exact balanced_structSteps d.name fields depth
  | enumeration literals => exact balanced_enumerationSteps d.name literals depth
  | _ => rfl

/-- Definitions are written at the depth at which they stand. -/
theorem balanced_listSteps (ds : List Definition) : Balanced (listSteps ds) :=
  .flatMap fun d _ => d.balanced_steps

end Definition

/-- The text of the types, when a block of definitions is put between others. -/
theorem TypesModule.text_insert (before block behind : List Definition) :
    ∃ front back,
      Source.text (.line headerLine :: Definition.listSteps (before ++ behind))
          = front ++ back
        ∧ Source.text (.line headerLine
              :: Definition.listSteps (before ++ block ++ behind))
          = front ++ Source.text (Definition.listSteps block) ++ back := by
  have hsplit (ds more : List Definition) :
      Definition.listSteps (ds ++ more)
        = Definition.listSteps ds ++ Definition.listSteps more :=
    List.flatMap_append
  have hbefore : Step.Balanced
      (.line headerLine :: Definition.listSteps before) := fun depth =>
    Definition.balanced_listSteps before depth
  -- :: the text is cut where a block ends, at depth zero again
  refine ⟨Source.text (.line headerLine :: Definition.listSteps before),
    Source.text (Definition.listSteps behind), ?_, ?_⟩
  · rw [hsplit, ← List.cons_append, Source.text_append hbefore]
  · rw [List.append_assoc, hsplit, hsplit, ← List.cons_append,
      Source.text_append hbefore,
      Source.text_append (Definition.balanced_listSteps block),
      String.append_assoc]

/-- One entry more adds one block to the source of the types. -/
theorem TypesModule.source_insert {T : String → Prop} {c c' : Catalog}
    (h : Catalog.AgreeOn T c c') {front back : List CatalogEntry}
    {e : CatalogEntry} (hc : c.entries = front ++ back)
    (hc' : c'.entries = front ++ e :: back)
    (hT : ∀ x ∈ c.entries, ∀ n ∈ x.shape.names, T n)
    (hapart : ∀ n ∈ names c, ¬ e.Introduces n) :
    ∃ before behind, c.typesSource = before ++ behind
      ∧ c'.typesSource
        = before ++ Source.text (Definition.listSteps (own c' e)) ++ behind := by
  obtain ⟨first, last, hdefinitions, hdefinitions'⟩ :=
    definitions_insert h hc hc' hT hapart
  obtain ⟨before, behind, htext, htext'⟩ := text_insert first (own c' e) last
  refine ⟨before, behind, ?_, ?_⟩
  · unfold Catalog.typesSource steps
    rw [hdefinitions, htext]
  · unfold Catalog.typesSource steps
    rw [hdefinitions', htext']

-- =============================================================== catalogs

namespace Document

variable {d : Document} {raw : String} {new : Schema} {c c' : Catalog}

/-- The larger catalog answers whatever the smaller one does. -/
theorem keeps_withSchema (hnew : d.Unused raw) (hd : d.Checked)
    (hc : d.catalog = .ok c) (hc' : (d.withSchema raw new).catalog = .ok c')
    (hagree : Catalog.AgreeOn d.ExportsName c c') : Catalog.Keeps c c' := by
  have hdocument := document_of_catalog hc
  have hdocument' := document_of_catalog hc'
  subst hdocument
  refine ⟨hd, hagree, ?_, ?_, ?_, ?_, ?_, ?_, ?_⟩
  all_goals rw [hdocument']
  · exact fun s x hs hx => shape?_withSchema hnew hd hs hx
  · exact fun p x hx => resolveParameter_withSchema hnew hx
  · exact fun p x hx => resolveRequestBody_withSchema hnew hx
  · exact fun p x hx => resolveResponse_withSchema hnew hx
  · rfl
  · rfl
  · rfl

theorem securitySource?_withSchema (d : Document) (raw : String)
    (new : Schema) :
    (d.withSchema raw new).securitySource? = d.securitySource? := rfl

theorem indexSource_withSchema (d : Document) (raw : String) (new : Schema) :
    (d.withSchema raw new).indexSource = d.indexSource := rfl

end Document

-- =========================================================== main result

namespace Settings

variable {d : Document} {raw : String} {new : Schema} {c c' : Catalog}

/-- If the new component introduces none of the names that the types define,
one block more is generated in the types. -/
theorem generate_withSchema (hnew : d.Unused raw) (hd : d.Checked)
    (hf : d.MapsFinitely) (hc : d.catalog = .ok c)
    (hc' : (d.withSchema raw new).catalog = .ok c')
    {front back : List CatalogEntry} {e : CatalogEntry}
    (hentries : c.entries = front ++ back)
    (hentries' : c'.entries = front ++ e :: back)
    (hagree : Catalog.AgreeOn d.ExportsName c c')
    (hapart : ∀ n ∈ TypesModule.names c, ¬ e.Introduces n) (s : Settings) :
    ∃ before behind others,
      s.generate d = .ok (⟨"types", before ++ behind⟩ :: others)
        ∧ s.generate (d.withSchema raw new) = .ok (⟨"types", before
            ++ Source.text (Definition.listSteps (TypesModule.own c' e))
            ++ behind⟩ :: others) := by
  -- both documents plan the same server and the same webhooks
  have hkeeps := Document.keeps_withSchema hnew hd hc hc' hagree
  have hdocument := Document.document_of_catalog hc
  obtain ⟨m, _, hm, -⟩ :=
    ServerModule.ofCatalog_ok (hdocument ▸ hd) (hdocument ▸ hf)
  obtain ⟨w, hw, -⟩ :=
    WebhookModule.ofCatalog?_ok (hdocument ▸ hd) (hdocument ▸ hf)
  have hm' := ServerModule.ofCatalog_carried hkeeps hm
  have hw' := WebhookModule.ofCatalog?_carried hkeeps hw
  -- the types get one block more, and nothing else moves
  obtain ⟨before, behind, hsource, hsource'⟩ :=
    TypesModule.source_insert hagree hentries hentries'
      (fun x hx => (Document.entry_exports hd
        (Document.entries_of_catalog hc) hx).2) hapart
  -- so the same modules are written, and the index is the same
  have hmodules : (s.sources (d.withSchema raw new) c' m w).map (·.module)
      = (s.sources d c m w).map (·.module) := by
    unfold sources
    rw [Document.securitySource?_withSchema]
    simp only [List.map_append, List.map_cons]
  rw [generate_eq hc hm hw, generate_eq hc' hm' hw', hmodules,
    Document.indexSource_withSchema, sources, sources, hsource, hsource',
    Document.securitySource?_withSchema]
  exact ⟨_, _, _, rfl, rfl⟩

/-- Adding a component schema is local. Let a document be prepared, and also the
document with one schema more, under a name that was not used, and let mapping
end on both. If none of the names that the new component introduces is defined
by the types of the first, then whatever the settings are, the types of the
second are those of the first with the definitions of these names put in one
place. Nothing else that is generated differs.

The names that the server and the webhooks define do not matter, for these have
modules of their own; nor need the new names differ from each other, for the
first offer of a name keeps it. -/
theorem adding_a_component_is_local {d : Document} {raw : String}
    {new : Schema} {p p' : Prepared} (hnew : d.Unused raw)
    (h : d.prepare = .ok p) (h' : (d.withSchema raw new).prepare = .ok p')
    (hf : p.document.MapsFinitely) (hf' : p'.document.MapsFinitely) :
    ∃ c c' e, p.document.catalog = .ok c ∧ p'.document.catalog = .ok c'
      ∧ (e ∈ c'.entries ∧ e.raw = raw
        ∧ e.name = Identifier.typeName raw "Schema")
      ∧ ((∀ n ∈ TypesModule.names c, ¬ e.Introduces n) → ∀ s : Settings,
        ∃ before behind others,
          s.generate p.document = .ok (⟨"types", before ++ behind⟩ :: others)
            ∧ s.generate p'.document = .ok (⟨"types", before
                ++ Source.text (Definition.listSteps (TypesModule.own c' e))
                ++ behind⟩ :: others)) := by
  have hd := Document.checked_of_prepare h
  obtain ⟨c, hc, -⟩ := Document.catalog_ok hf
  obtain ⟨c', hc', -⟩ := Document.catalog_ok hf'
  have hunused : p.document.Unused raw := by
    intro x hx
    rw [Document.document_of_prepare h, Document.canonical_schemas] at hx
    obtain ⟨y, hy, rfl⟩ := List.mem_map.1 hx
    exact hnew y hy
  have hmore : p'.document = p.document.withSchema raw new.canonicalForm := by
    rw [Document.document_of_prepare h', Document.document_of_prepare h,
      Document.canonical_withSchema]
  rw [hmore] at hc' ⊢
  obtain ⟨front, e, back, hentries, hentries', hraw, hagree⟩ :=
    Document.catalog_withSchema hunused hd hc hc'
  have hmem : e ∈ c'.entries := by
    rw [hentries']
    exact List.mem_append_right _ (List.mem_cons_self ..)
  refine ⟨c, c', e, hc, hc', ⟨hmem, hraw⟩, fun hapart s => ?_⟩
  -- the name of the component is one of those that it introduces
  have hfree : ¬ p.document.ExportsName e.name := fun hexports =>
    hapart e.name ((TypesModule.definitions_closed hd hf hc).2.1 _ hexports)
      (TypesModule.introduces_name c' e)
  exact generate_withSchema hunused hd hf hc hc' hentries hentries'
    (hagree hfree) hapart s

/-- The schema of an owner, who has a pet and a home. -/
def ownerSchema : Schema where
  types := ["object"]
  properties :=
    [("home",
      { types := ["object"], properties := [("city", .ofType "string")] }),
     ("pet", petPointer)]

/-- The kennel with owners. -/
def boardingKennel : Document :=
  kennel.withSchema "Owner" ownerSchema

/-- Owners in the kennel add the definitions of an owner and of a home to the
types, and nothing else. -/
theorem adding_an_owner_is_local : ∃ p p' owner before behind others,
    kennel.prepare = .ok p ∧ boardingKennel.prepare = .ok p'
      ∧ owner.map (·.name) = ["Owner", "OwnerHome"]
      ∧ ({} : Settings).generate p.document
        = .ok (⟨"types", before ++ behind⟩ :: others)
      ∧ ({} : Settings).generate p'.document
        = .ok (⟨"types", before ++ Source.text (Definition.listSteps owner)
            ++ behind⟩ :: others) := by
  obtain ⟨p, hp, hdocument, hfinite⟩ := kennel_prepared
  obtain ⟨p', hp', hdocument', hfinite'⟩ :=
    Document.prepared_of_shapes (d := boardingKennel) 3 (by decide +kernel)
      (by decide +kernel)
  have hunused : kennel.Unused "Owner" := by
    unfold Document.Unused
    decide +kernel
  obtain ⟨c, c', e, hc, hc', ⟨he, hraw, -⟩, hlocal⟩ :=
    adding_a_component_is_local hunused hp hp' hfinite hfinite'
  -- the pets have no name that the owners introduce
  have hread : kennel.canonical.1.catalog.toOption.any (fun c =>
      boardingKennel.canonical.1.catalog.toOption.any fun c' => decide
        (∀ e ∈ c'.entries, e.raw = "Owner" →
          (TypesModule.own c' e).map (·.name) = ["Owner", "OwnerHome"]
            ∧ ∀ n ∈ TypesModule.names c, n ∉ ["Owner", "OwnerHome"]))
      = true := by
    decide +kernel
  rw [← hdocument, ← hdocument', hc, hc'] at hread
  obtain ⟨hnames, hapart⟩ := of_decide_eq_true hread e he hraw
  have hnone : ∀ n ∈ TypesModule.names c, ¬ e.Introduces n := by
    intro n hn hnew
    rw [← TypesModule.mem_names_own c', hnames] at hnew
    exact hapart n hn hnew
  obtain ⟨before, behind, others, hrun, hrun'⟩ := hlocal hnone {}
  exact ⟨p, p', _, before, behind, others, hp, hp', hnames, hrun, hrun'⟩

end Settings

end ApiForge
