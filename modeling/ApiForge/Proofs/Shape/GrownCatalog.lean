import ApiForge.Proofs.Artifact.FirstCome
import ApiForge.Proofs.Document.Ordered
import ApiForge.Proofs.Shape.Catalog
import ApiForge.Proofs.Shape.Grown
/-!
The catalog of a document with one component schema more.

The larger catalog has one entry more, and the others as they were
(`catalog_withSchema`). Which names stand for records and which for scalars is
found by closing lists under aliases, and an entry more is perhaps an alias
more. But the kind of a name depends only on the entries that one comes to from
it. From the names of the smaller catalog one comes to no other names, so if the
new name is none of these, the catalogs agree on them
(`mem_namesWhere_insert`).
-/

namespace ApiForge

-- ================================================================= kinds

namespace Catalog

variable {front back : List CatalogEntry} {e : CatalogEntry}
  {p : Shape → Bool} {T : String → Prop}

/-- An entry more is no alias more under other names. -/
theorem mem_aliases_insert {a : String × String} (ha : e.name ≠ a.1) :
    a ∈ aliases (front ++ e :: back) ↔ a ∈ aliases (front ++ back) := by
  have hget : (aliases (front ++ e :: back)).get? a.1
      = (aliases (front ++ back)).get? a.1 := by
    show (Table.ofList ((front ++ e :: back).filterMap alias?)).get? a.1
      = (Table.ofList ((front ++ back).filterMap alias?)).get? a.1
    rw [List.filterMap_append, List.filterMap_append]
    cases halias : alias? e with
    | none => rw [List.filterMap_cons_none halias]
    | some b =>
        have hb : b.1 ≠ a.1 := (alias?_eq_some_iff.1 halias).1 ▸ ha
        rw [List.filterMap_cons_some halias]
        exact Table.get?_ofList_append_cons hb _ _
  obtain ⟨k, target⟩ := a
  rw [aliases, aliases, Table.mem_ofList_iff_get?, Table.mem_ofList_iff_get?]
  exact hget ▸ Iff.rfl

/-- Names that one comes to from the entries have the kinds that they had, if
the name of the new entry is none of them. -/
theorem mem_namesWhere_insert (hnames : ∀ x ∈ front ++ back, T x.name)
    (hshapes : ∀ x ∈ front ++ back, ∀ n ∈ x.shape.names, T n)
    (hnew : ¬ T e.name) {n : String} (hn : T n) :
    n ∈ namesWhere (front ++ e :: back) p
      ↔ n ∈ namesWhere (front ++ back) p := by
  have hne {m : String} (hm : T m) : e.name ≠ m := fun h => hnew (h ▸ hm)
  have hold {x : CatalogEntry} (hx : x ∈ front ++ e :: back) (hxn : T x.name) :
      x ∈ front ++ back := by
    rcases List.mem_append.1 hx with hx | hx
    · exact List.mem_append_left _ hx
    · rcases List.mem_cons.1 hx with rfl | hx
      · exact absurd hxn hnew
      · exact List.mem_append_right _ hx
  constructor
  · -- what is found in the larger list is found in the smaller, on such names
    refine fun h => close_induct (P := fun n => T n →
      n ∈ namesWhere (front ++ back) p) (fun n hmem hT => ?_)
      (fun a ha htarget hT => ?_) _ n h hn
    · obtain ⟨x, hx, rfl⟩ := List.mem_map.1 hmem
      obtain ⟨hx, hp⟩ := List.mem_filter.1 hx
      exact mem_namesWhere (hold hx hT) hp
    · have ha := (mem_aliases_insert (hne hT)).1 ha
      obtain ⟨x, hx, -, hshape⟩ := exists_of_mem_aliases ha
      refine closed_close List.countP_le_length a ha (htarget ?_)
      refine hshapes x hx a.2 ?_
      rw [hshape]
      exact List.mem_singleton_self _
  · refine fun h => close_induct (P := fun n =>
      n ∈ namesWhere (front ++ e :: back) p) (fun n hmem => ?_)
      (fun a ha htarget => ?_) _ n h
    · obtain ⟨x, hx, rfl⟩ := List.mem_map.1 hmem
      obtain ⟨hx, hp⟩ := List.mem_filter.1 hx
      refine mem_namesWhere ?_ hp
      rcases List.mem_append.1 hx with hx | hx
      · exact List.mem_append_left _ hx
      · exact List.mem_append_right _ (List.mem_cons_of_mem _ hx)
    · obtain ⟨x, hx, hname, -⟩ := exists_of_mem_aliases ha
      have ha := (mem_aliases_insert (hne (hname ▸ hnames x hx))).2 ha
      exact closed_close List.countP_le_length a ha htarget

-- ============================================================= agreement

/-- Two catalogs say the same of the kinds of some names. -/
structure AgreeOn (T : String → Prop) (c c' : Catalog) : Prop where
  record : ∀ n, T n → c'.isRecord n = c.isRecord n
  scalar : ∀ n, T n → c'.scalars.contains n = c.scalars.contains n

namespace AgreeOn

variable {c c' : Catalog}

/-- Such catalogs agree on which shapes are scalars. -/
theorem isScalar (h : AgreeOn T c c') {shape : Shape}
    (hT : ∀ n ∈ shape.names, T n) : c'.isScalar shape = c.isScalar shape := by
  match shape with
  | .named name => exact h.scalar name (hT name (List.mem_singleton_self name))
  | .list _ | .map _ | .record _ | .choice _ | .text | .date | .dateTime
  | .int32 | .int64 | .float32 | .float64 | .bool | .any => rfl

/-- And on which fields are stored behind a pointer. -/
theorem needsBox (h : AgreeOn T c c') {f : Field}
    (hT : ∀ n ∈ f.shape.names, T n) (owner : String) :
    c'.needsBox f owner = c.needsBox f owner := by
  unfold Catalog.needsBox
  split
  · rfl
  · rename_i name hshape
    have hname : T name := hT name (by rw [hshape, Shape.names]; simp)
    rw [h.record name hname]
  · rfl

end AgreeOn

end Catalog

-- ============================================================== catalogs

namespace Document

variable {d : Document} {raw : String} {new : Schema}

/-- The catalog entry of a component schema, nothing if it has no finite
shape. -/
def entryOf? (d : Document) (e : String × Schema) : Option CatalogEntry :=
  (d.shape? e.2).bind fun shape =>
    some ⟨e.1, Identifier.typeName e.1 "Schema", e.2, shape⟩

theorem entries?_eq (d : Document) :
    Catalog.entries? d = List.mapM d.entryOf? d.schemas := rfl

/-- The entry of a component schema stays. -/
theorem entryOf?_withSchema (hnew : d.Unused raw) (hd : d.Checked)
    {e : String × Schema} (he : e ∈ d.schemas) {entry : CatalogEntry}
    (h : d.entryOf? e = some entry) :
    (d.withSchema raw new).entryOf? e = some entry := by
  obtain ⟨shape, hshape, hentry⟩ := Option.bind_eq_some_iff.1 h
  rw [entryOf?, shape?_withSchema hnew hd (.component he) hshape]
  exact hentry

/-- The larger catalog has an entry for the new schema, and otherwise those of
the smaller one. -/
theorem entries?_withSchema (hnew : d.Unused raw) (hd : d.Checked)
    {es es' : List CatalogEntry} (hes : Catalog.entries? d = some es)
    (hes' : Catalog.entries? (d.withSchema raw new) = some es') :
    ∃ front e back, es = front ++ back ∧ es' = front ++ e :: back
      ∧ e.raw = raw ∧ e.name = Identifier.typeName raw "Schema" := by
  obtain ⟨before, behind, hsplit, hinsert⟩ := Table.insert_split hnew new
  have hmore : (d.withSchema raw new).schemas
      = before ++ (raw, new) :: behind := hinsert
  have hschemas : d.schemas = before ++ behind := hsplit
  -- on both sides of the new schema the entries are those of the document
  rw [entries?_eq, hschemas, List.mapM_append] at hes
  obtain ⟨front, hfront, hes⟩ := Option.bind_eq_some_iff.1 hes
  obtain ⟨back, hback, hes⟩ := Option.bind_eq_some_iff.1 hes
  have hkept {l : List (String × Schema)} (hl : l ⊆ d.schemas)
      {r : List CatalogEntry} (hr : l.mapM d.entryOf? = some r) :
      l.mapM (d.withSchema raw new).entryOf? = some r :=
    mapM_mono (fun e he _ h => entryOf?_withSchema hnew hd (hl he) h) hr
  have hfront := hkept (hschemas ▸ List.subset_append_left _ _) hfront
  have hback := hkept (hschemas ▸ List.subset_append_right _ _) hback
  rw [entries?_eq, hmore, List.mapM_append, List.mapM_cons, hfront,
    hback] at hes'
  obtain ⟨e, he, hes'⟩ : ∃ e, (d.withSchema raw new).entryOf? (raw, new) = some e
      ∧ front ++ e :: back = es' := by
    cases he : (d.withSchema raw new).entryOf? (raw, new) with
    | none => rw [he] at hes'; cases hes'
    | some e =>
        rw [he] at hes'
        exact ⟨e, rfl, Option.some.inj hes'⟩
  refine ⟨front, e, back, (Option.some.inj hes).symm, hes'.symm, ?_⟩
  obtain ⟨shape, -, he⟩ := Option.bind_eq_some_iff.1 he
  cases he
  dsimp only
  exact ⟨rfl, rfl⟩

/-- The name of an entry is exported, and so are those in its shape. -/
theorem entry_exports (hd : d.Checked) {es : List CatalogEntry}
    (hes : Catalog.entries? d = some es) {e : CatalogEntry} (he : e ∈ es) :
    d.ExportsName e.name ∧ ∀ n ∈ e.shape.names, d.ExportsName n := by
  obtain ⟨x, hx, hname, hshape⟩ :=
    exists_of_forall₂ (forall₂_catalogued hes).flip e he
  have hseen := (Mapped.component hx).covered.seen
  exact ⟨⟨x, hx, hname⟩, names_shape? hd hseen hshape⟩

/-- The catalog of the larger document has one entry more than that of the
smaller one, for the new schema. If the name of this entry is exported by no
other schema, the catalogs agree on the names that others export. -/
theorem catalog_withSchema (hnew : d.Unused raw) (hd : d.Checked)
    {c c' : Catalog} (hc : d.catalog = .ok c)
    (hc' : (d.withSchema raw new).catalog = .ok c') :
    ∃ front e back, c.entries = front ++ back
      ∧ c'.entries = front ++ e :: back
      ∧ (e.raw = raw ∧ e.name = Identifier.typeName raw "Schema")
      ∧ (¬ d.ExportsName e.name → Catalog.AgreeOn d.ExportsName c c') := by
  obtain ⟨es, hes, rfl⟩ := eq_of_catalog hc
  obtain ⟨es', hes', rfl⟩ := eq_of_catalog hc'
  obtain ⟨front, e, back, rfl, rfl, hraw⟩ :=
    entries?_withSchema hnew hd hes hes'
  refine ⟨front, e, back, rfl, rfl, hraw, fun hfree => ?_⟩
  have hnames := fun x hx => (entry_exports hd hes (e := x) hx).1
  have hshapes := fun x hx => (entry_exports hd hes (e := x) hx).2
  have hsame (p : Shape → Bool) (n : String) (hn : d.ExportsName n) :
      (Catalog.namesWhere (front ++ e :: back) p).contains n
        = (Catalog.namesWhere (front ++ back) p).contains n := by
    rw [Bool.eq_iff_iff, List.contains_iff_mem, List.contains_iff_mem]
    exact Catalog.mem_namesWhere_insert hnames hshapes hfree hn
  exact ⟨hsame _, hsame _⟩

end Document

end ApiForge
