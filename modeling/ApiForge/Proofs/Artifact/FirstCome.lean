import ApiForge.Proofs.Artifact.Closed
import ApiForge.Proofs.Artifact.Turns
/-!
Names of types are given first come, first served.

`TypesModule.Faithful` says that the types of a document define one shape under
each name: under that of a component its own shape, and under a name in a
definition the inline shape that stands there. This is not always so. The name
that is made for an inline shape may be that of a component, or of another
inline shape, and then whichever is offered the name first keeps it
(`status_not_faithful`). `FirstCome` says what is so: every definition is that
of the first shape which was offered its name, and so is every declaration in
the source (`types_first_come`). When no name is offered to different shapes,
the types are faithful.
-/

namespace ApiForge

open Hoisted (holder hoists firsts)

/-- What is declared for a shape that is defined under a name. -/
def Hoisted.declared (c : Catalog) (o : Hoisted) : Source.Declared :=
  (Definition.of c o.name none o.shape).declared

namespace TypesModule

-- ================================================================ meanings

/-- Under each name one shape is defined: under that of a component its own,
and under a name in a definition the inline shape in that place. -/
def Faithful (c : Catalog) : Prop :=
  ∃ shapeOf : String → Shape,
    (∀ d ∈ definitions c, Gives c d ⟨d.name, shapeOf d.name⟩)
      ∧ (∀ e ∈ c.entries, e.name ∈ names c ∧ shapeOf e.name = e.shape)
      ∧ ∀ d ∈ definitions c,
          List.Forall₂ (fun t place => ∀ n ∈ t.hoistedNames,
              n ∈ names c ∧ place.inline? = some (shapeOf n))
            d.types (shapeOf d.name).places

/-- The types define the first of the offers under each name. -/
structure FirstCome (c : Catalog) (offers : List Hoisted) : Prop where
  nodup : (names c).Nodup
  /-- Just the names are defined that are offered. -/
  names : ∀ n, n ∈ names c ↔ ∃ o ∈ offers, o.name = n
  /-- A component is offered its name, and only inline shapes may have been
  before. -/
  component : ∀ e ∈ c.entries, ∃ front back,
    offers = front ++ e.offer :: back
      ∧ ∀ q ∈ front, q.name = e.name → ∃ o ∈ front, q ∈ o.hoists
  /-- A definition is that of the shape which holds its name, and the names in
  it are offered to the inline shapes in their places. -/
  definition : ∀ d ∈ definitions c, ∃ o, holder offers d.name = some o
    ∧ Gives c d o
    ∧ List.Forall₂ (Definition.Offers offers) d.types o.shape.places

/-- No name is offered to different shapes. -/
def Unambiguous (offers : List Hoisted) : Prop :=
  ∀ o ∈ offers, ∀ q ∈ offers, o.name = q.name → o.shape = q.shape

variable {c : Catalog} {offers : List Hoisted}

/-- If no name is offered to different shapes, it does not matter which was the
first. -/
theorem FirstCome.faithful (h : FirstCome c offers)
    (hsame : Unambiguous offers) : Faithful c := by
  let shapeOf (n : String) : Shape :=
    ((holder offers n).map (·.shape)).getD .any
  -- of several offers of a name, the first has the shape of every other
  have held {o : Hoisted} (ho : o ∈ offers) : shapeOf o.name = o.shape := by
    have hfound : (holder offers o.name).isSome :=
      List.find?_isSome.2 ⟨o, ho, beq_self_eq_true _⟩
    obtain ⟨q, hq⟩ := Option.isSome_iff_exists.1 hfound
    have hname := List.find?_some hq
    have hshape := hsame q (List.mem_of_find?_eq_some hq) o ho (eq_of_beq hname)
    show ((holder offers o.name).map (·.shape)).getD .any = _
    rw [hq]
    exact hshape
  have defined {d : Definition} (hd : d ∈ definitions c) : ∃ o,
      shapeOf d.name = o.shape ∧ Gives c d o
        ∧ List.Forall₂ (Definition.Offers offers) d.types o.shape.places := by
    obtain ⟨o, hholder, hgives, htypes⟩ := h.definition d hd
    refine ⟨o, ?_, hgives, htypes⟩
    rw [hgives.1]
    exact held (List.mem_of_find?_eq_some hholder)
  refine ⟨shapeOf, fun d hd => ?_, fun e he => ?_, fun d hd => ?_⟩
  · obtain ⟨o, hshape, hgives, -⟩ := defined hd
    rw [hshape]
    exact ⟨rfl, hgives.1 ▸ hgives.2⟩
  · obtain ⟨front, back, hoffers, -⟩ := h.component e he
    have hmem : e.offer ∈ offers := by
      rw [hoffers]
      exact List.mem_append_right _ (List.mem_cons_self ..)
    exact ⟨(h.names e.name).2 ⟨e.offer, hmem, rfl⟩, held hmem⟩
  · obtain ⟨o, hshape, -, htypes⟩ := defined hd
    rw [hshape]
    refine htypes.imp fun t place htp n hn => ?_
    obtain ⟨y, hy, hmem⟩ := htp n hn
    have hinline : shapeOf n = y := held hmem
    rw [hy, hinline]
    exact ⟨(h.names n).2 ⟨⟨n, y⟩, hmem, rfl⟩, rfl⟩

/-- The definitions of first offers are first come, first served. -/
theorem firstCome_of_offered (hoffers : Offered [] c.entries offers)
    (hdistinct : (c.entries.map (·.name)).Nodup)
    (hall : List.Forall₂ (Gives c) (definitions c) (firsts [] offers)) :
    FirstCome c offers := by
  have hnames : names c = (firsts [] offers).map (·.name) := by
    rw [TypesModule.names, ← List.forall₂_eq_eq_eq, List.forall₂_map_left_iff,
      List.forall₂_map_right_iff]
    exact hall.imp fun d o hgives => hgives.1
  refine ⟨?_, fun n => ?_, fun e he => hoffers.component hdistinct he, ?_⟩
  · rw [hnames]
    exact (Hoisted.nodup_firsts [] offers).1
  · have hmem := Hoisted.mem_names_firsts [] offers n
    simp only [List.not_mem_nil, or_false] at hmem
    rw [hnames, hmem, List.mem_map]
  · intro d hd
    -- a definition differs from that of its shape in the description only
    obtain ⟨o, ho, hgives⟩ := exists_of_forall₂ hall d hd
    have hholder := Hoisted.holder_of_mem_firsts ho
    have htypes : d.types = (Definition.of c o.name none o.shape).types := by
      rw [Definition.types, Definition.types, hgives.2]
    refine ⟨o, by rw [hgives.1, hholder], hgives, ?_⟩
    rw [htypes]
    refine (Definition.of_offers o.name none o.shape).imp fun t place htp n hn => ?_
    obtain ⟨y, hy, hmem⟩ := htp n hn
    exact ⟨y, hy, hoffers.hoists_subset o ho hmem⟩

/-- Definitions are declared as the shapes that they are of: the descriptions in
which they may differ are not read. -/
theorem map_declared_of_gives {ds : List Definition} {given : List Hoisted}
    (h : List.Forall₂ (Gives c) ds given) :
    ds.map Definition.declared = given.map (Hoisted.declared c) := by
  rw [← List.forall₂_eq_eq_eq, List.forall₂_map_left_iff,
    List.forall₂_map_right_iff]
  refine h.imp fun d o hgives => ?_
  have hname := (gives_of (c := c) o.name none o.shape).1
  rw [Hoisted.declared, Definition.declared, Definition.declared, hgives.1,
    hgives.2, hname]

/-- When all names that are offered are different, and nothing is hoisted out of
what is hoisted, the turn of a component offers it and what it hoists. -/
theorem offered_of_flat (before : List String) {es : List CatalogEntry}
    (hflat : ∀ e ∈ es, ∀ k ∈ e.offer.hoists, k.hoists = [])
    (hnodup : ((es.flatMap fun e => e.offer :: e.offer.hoists).map
      (·.name)).Nodup)
    (hfree : ∀ p ∈ es.flatMap (fun e => e.offer :: e.offer.hoists),
      p.name ∉ before) :
    Offered before es (es.flatMap fun e => e.offer :: e.offer.hoists) := by
  induction es generalizing before with
  | nil => exact .nil before
  | cons e es ih =>
      rw [List.flatMap_cons, List.map_append, List.nodup_append] at hnodup
      rw [List.flatMap_cons] at hfree ⊢
      obtain ⟨hturn, hrest, hother⟩ := hnodup
      refine .cons ?_ (ih _ (fun x hx => hflat x (List.mem_cons_of_mem _ hx))
        hrest fun p hp => ?_)
      · have hnone : e.offer.hoists.flatMap hoists = [] :=
          List.flatMap_eq_nil_iff.2 (hflat e (List.mem_cons_self ..))
        rw [Hoisted.firsts_of_nodup hturn fun p hp =>
            hfree p (List.mem_append_left _ hp),
          List.flatMap_cons, hnone, List.append_nil]
      · rw [List.mem_append, not_or]
        refine ⟨fun hmem => ?_, hfree p (List.mem_append_right _ hp)⟩
        exact hother _ hmem _ (List.mem_map_of_mem hp) rfl

/-- Then the types are faithful. -/
theorem faithful_of_flat
    (hflat : ∀ e ∈ c.entries, ∀ k ∈ e.offer.hoists, k.hoists = [])
    (hnodup : ((c.entries.flatMap fun e => e.offer :: e.offer.hoists).map
      (·.name)).Nodup)
    (hdistinct : (c.entries.map (·.name)).Nodup) : Faithful c := by
  have hoffered := offered_of_flat [] hflat hnodup
    fun _ _ => List.not_mem_nil
  obtain ⟨offers, hoffers, hall⟩ : ∃ offers, Offered [] c.entries offers
      ∧ List.Forall₂ (Gives c) (definitions c) (firsts [] offers) :=
    define_eq c c.entries rfl fun _ => Iff.rfl
  cases hoffers.unique hoffered
  refine (firstCome_of_offered hoffers hdistinct hall).faithful ?_
  intro o ho q hq hname
  rw [List.inj_on_of_nodup_map hnodup ho hq hname]

end TypesModule

-- ============================================================= main result

namespace Document

variable {d : Document} {c : Catalog}

/-- The catalog of a document is made from the entries of its component
schemas. -/
theorem eq_of_catalog (hc : d.catalog = .ok c) :
    ∃ entries, Catalog.entries? d = some entries
      ∧ c = ⟨d, entries, Catalog.namesWhere entries Catalog.isRecordShape,
          Catalog.namesWhere entries Shape.isScalar⟩ := by
  rw [catalog] at hc
  cases hcatalog : Catalog.ofDocument? d with
  | none => rw [hcatalog] at hc; cases hc
  | some c' =>
      rw [hcatalog] at hc
      cases hc
      obtain ⟨entries, hentries, hc⟩ := Option.bind_eq_some_iff.1 hcatalog
      cases hc
      exact ⟨entries, hentries, rfl⟩

theorem document_of_catalog (hc : d.catalog = .ok c) : c.document = d := by
  obtain ⟨es, -, rfl⟩ := eq_of_catalog hc
  rfl

theorem entries_of_catalog (hc : d.catalog = .ok c) :
    Catalog.entries? d = some c.entries := by
  obtain ⟨entries, hentries, rfl⟩ := eq_of_catalog hc
  exact hentries

/-- The names of records are those of entries that are records, and their
aliases. -/
theorem records_of_catalog (hc : d.catalog = .ok c) :
    c.records = Catalog.namesWhere c.entries Catalog.isRecordShape := by
  obtain ⟨entries, -, rfl⟩ := eq_of_catalog hc
  rfl

/-- The names of scalars are those of entries that are scalars, and their
aliases. -/
theorem scalars_of_catalog (hc : d.catalog = .ok c) :
    c.scalars = Catalog.namesWhere c.entries Shape.isScalar := by
  obtain ⟨entries, -, rfl⟩ := eq_of_catalog hc
  rfl

/-- Component schemas with different exported names. -/
def DistinctNames (d : Document) : Prop :=
  (d.schemas.map fun e => Identifier.typeName e.1 "Schema").Nodup

/-- The entries of the catalog have the exported names of the component
schemas. -/
theorem names_of_forall₂ (h : List.Forall₂ d.Catalogued d.schemas c.entries) :
    c.entries.map (·.name)
      = d.schemas.map fun e => Identifier.typeName e.1 "Schema" := by
  rw [← List.forall₂_eq_eq_eq, List.forall₂_map_left_iff,
    List.forall₂_map_right_iff]
  exact h.flip.imp fun entry e hentry => hentry.1

end Document

namespace TypesModule

/-- The types of a prepared document on which mapping ends, and whose component
schemas have different exported names, are defined first come, first served.
The components are offered their own names in order, each before what is
hoisted out of the definitions that its turn makes. A definition is that of the
first shape which was offered its name, and a name in a definition is offered
to the inline shape in that place. So the types are faithful when no name is
offered to different shapes. What is read back from their source are the
declarations of the first offers, in order. -/
theorem types_first_come {d : Document} {p : Prepared}
    (h : d.prepare = .ok p) (hf : p.document.MapsFinitely)
    (hdistinct : p.document.DistinctNames) :
    ∃ c offers, p.document.catalog = .ok c
      ∧ List.Forall₂ p.document.Catalogued p.document.schemas c.entries
      ∧ (∀ offers', Offered [] c.entries offers' ↔ offers' = offers)
      ∧ FirstCome c offers
      ∧ (Unambiguous offers → Faithful c)
      ∧ Source.declaredIn (steps c)
          = (firsts [] offers).map (Hoisted.declared c)
      ∧ ∀ s : Settings, ∃ artifacts, s.generate p.document = .ok artifacts
          ∧ ∀ a ∈ artifacts, a.module = "types" →
              a.contents = Source.text (steps c) := by
  have hd := Document.checked_of_prepare h
  obtain ⟨c, hc, hdocument, -⟩ := Document.catalog_ok hf
  obtain ⟨offers, hoffers, hall⟩ : ∃ offers, Offered [] c.entries offers
      ∧ List.Forall₂ (Gives c) (definitions c) (firsts [] offers) :=
    define_eq c c.entries rfl fun _ => Iff.rfl
  -- the names of the entries are those of the components, so they are different
  have hcatalogued :=
    Document.forall₂_catalogued (Document.entries_of_catalog hc)
  have hnodup : (c.entries.map (·.name)).Nodup := by
    rw [Document.names_of_forall₂ hcatalogued]
    exact hdistinct
  have hfirst := firstCome_of_offered hoffers hnodup hall
  refine ⟨c, offers, hc, hcatalogued,
    fun offers' => ⟨fun h' => h'.unique hoffers, ?_⟩, hfirst, hfirst.faithful,
    ?_, fun s => ?_⟩
  · rintro rfl
    exact hoffers
  · rw [declaredIn_steps (isName_entries hf hc), map_declared_of_gives hall]
  · rw [← hdocument] at hd hf
    obtain ⟨m, -, hm, -⟩ := ServerModule.ofCatalog_ok hd hf
    obtain ⟨w, hw, -⟩ := WebhookModule.ofCatalog?_ok hd hf
    obtain ⟨artifacts, hrun, hwrites⟩ := Settings.writes_generate hc hm hw s
    exact ⟨artifacts, hrun, fun a ha => (hwrites a ha).1⟩

open Settings (kennel kennel_prepared)

/-- Nothing but the pet and its kind is offered a name in the kennel, so its
types are faithful. -/
theorem types_first_come_kennel : ∃ p c offers, kennel.prepare = .ok p
    ∧ p.document.catalog = .ok c
    ∧ offers.map (·.name) = ["Pet", "PetKind"]
    ∧ FirstCome c offers ∧ Faithful c := by
  obtain ⟨p, hp, hdocument, hfinite⟩ := kennel_prepared
  have hdistinct : p.document.DistinctNames := by
    rw [hdocument, Document.DistinctNames]
    decide +kernel
  obtain ⟨c, offers, hc, -, hoffers, hfirst, hfaithful, -, -⟩ :=
    types_first_come hp hfinite hdistinct
  -- the one entry offers its own name, and hoists the kind of the pet
  have hread : kennel.canonical.1.catalog.toOption.map (fun c =>
      c.entries.map fun e =>
        e.offer.hoists.map fun k => (e.name, k.name, k.hoists.length))
      = some [[("Pet", "PetKind", 0)]] := by
    decide +kernel
  rw [← hdocument, hc] at hread
  replace hread := Option.some.inj hread
  obtain ⟨e, hone, hhoists⟩ := List.map_eq_singleton_iff.1 hread
  obtain ⟨k, hk, hnames⟩ := List.map_eq_singleton_iff.1 hhoists
  obtain ⟨hpet, hkind, hnone⟩ : e.offer.name = "Pet" ∧ k.name = "PetKind"
      ∧ k.hoists = [] := by
    rw [Prod.mk.injEq, Prod.mk.injEq] at hnames
    exact ⟨hnames.1, hnames.2.1, List.eq_nil_of_length_eq_zero hnames.2.2⟩
  have hturn : Offered [] c.entries ([e.offer, k] ++ []) := by
    rw [hone]
    refine .cons ?_ (.nil _)
    have hfirsts : firsts [] [e.offer, k] = [e.offer, k] := by
      rw [Hoisted.firsts_cons_of_not_mem List.not_mem_nil,
        Hoisted.firsts_cons_of_not_mem, firsts]
      rw [hpet, hkind]
      decide
    rw [hfirsts, List.flatMap_cons, List.flatMap_cons, hk, hnone]
    rfl
  obtain rfl := (hoffers _).1 hturn
  -- two names, so no name is offered twice
  have hsame : Unambiguous ([e.offer, k] ++ []) := by
    have hne : e.offer.name ≠ k.name := by
      rw [hpet, hkind]
      decide
    intro o ho q hq hname
    simp only [List.append_nil, List.mem_cons, List.not_mem_nil,
      or_false] at ho hq
    rcases ho with rfl | rfl <;> rcases hq with rfl | rfl
    · rfl
    · exact absurd hname hne
    · exact absurd hname.symm hne
    · rfl
  refine ⟨p, c, _, hp, hc, ?_, hfirst, hfaithful hsame⟩
  simp only [List.append_nil, List.map_cons, List.map_nil, hpet, hkind]

-- ==================================================================== clash

/-- Types are not faithful when the definition of a component has other than
the types in the component's shape. -/
theorem not_faithful_of_length {e : CatalogEntry} {d : Definition}
    (he : e ∈ c.entries) (hd : d ∈ definitions c) (hname : d.name = e.name)
    (hlength : d.types.length ≠ e.shape.places.length) : ¬Faithful c := by
  rintro ⟨shapeOf, -, hentries, hdefinitions⟩
  have htypes := hdefinitions d hd
  have hshape : shapeOf d.name = e.shape := by
    rw [hname]
    exact (hentries e he).2
  rw [hshape] at htypes
  exact hlength htypes.length_eq

/-- The schema of a pet with a status. -/
def petWithStatus : Schema where
  types := ["object"]
  properties :=
    [("status", { types := ["string"], literals := [.str "sold", .str "kept"] })]

/-- A document whose second component schema has the name that is made for an
inline shape in the first. -/
def clash : Document where
  openapi := "3.1.0"
  info := { title := "Clash", version := "1" }
  components := some
    { schemas := [("Pet", petWithStatus), ("PetStatus", .ofType "integer")] }

/-- The name `PetStatus` is offered to the status of a pet before it is offered
to the component of this name, which is a number. So the component is passed
over, and its name is that of an enumeration. -/
theorem status_not_faithful : ∃ p c, clash.prepare = .ok p
    ∧ p.document.MapsFinitely ∧ p.document.DistinctNames
    ∧ p.document.catalog = .ok c ∧ ¬Faithful c
    ∧ Source.declaredIn (steps c)
        = [.struct "Pet" [⟨"status", "status", "Option<PetStatus>"⟩],
          .enumeration "PetStatus" ["sold", "kept"]] := by
  obtain ⟨p, hp, hdocument, hfinite⟩ :=
    Document.prepared_of_shapes (d := clash) 3 (by decide +kernel)
      (by decide +kernel)
  obtain ⟨c, hc, -⟩ := Document.catalog_ok hfinite
  have hread : clash.canonical.1.catalog.toOption.any (fun c => decide
      ((∃ e ∈ c.entries, ∃ d ∈ definitions c, d.name = e.name
          ∧ d.types.length ≠ e.shape.places.length)
        ∧ (definitions c).map Definition.declared
          = [.struct "Pet" [⟨"status", "status", "Option<PetStatus>"⟩],
            .enumeration "PetStatus" ["sold", "kept"]])) = true := by
    decide +kernel
  rw [← hdocument, hc] at hread
  obtain ⟨⟨e, he, d, hd, hname, hlength⟩, hdeclared⟩ := of_decide_eq_true hread
  refine ⟨p, c, hp, hfinite, ?_, hc, not_faithful_of_length he hd hname hlength, ?_⟩
  · rw [hdocument, Document.DistinctNames]
    decide +kernel
  · rw [declaredIn_steps (isName_entries hfinite hc), hdeclared]

end TypesModule

end ApiForge
