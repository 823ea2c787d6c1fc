import ApiForge.Proofs.Artifact.FirstCome
import ApiForge.Proofs.Shape.Catalog
import ApiForge.Proofs.Shape.Cycle
/-!
Which names stand for records, and which for scalars.

An entry of the catalog whose shape is only another name is an alias, and is of
the kind that this name is of. What that means is said without rounds: a name
stands for what is found by following aliases from it, any number of them
(`StandsFor`). An alias names one other name, that of the last entry which makes
it an alias (`Links`), so there is one way to go; it may run in a circle, and
then it finds nothing.

# Passes

The kinds are found by passes over the aliases. A pass takes an alias in when
what it stands for is there, and passes are made until one adds no name, neither
to the records nor to the scalars (`Passes`). Each pass but the last either finds
a list closed or leaves fewer aliases missing, so that there is one pass more than
there are aliases, at most (`exists_passes`).

# Main result

What is in the lists in the end is just what stands for a record and for a scalar
(`kinds_exact`). The names found are no more than that, since a name that is
taken in links to one that was there; and they are no fewer, since the lists are
closed.
-/

namespace ApiForge

open Relation

namespace Catalog

-- ================================================ statement vocabulary

/-- A name is an alias of another: of the entries with this name that are
aliases, the last is one of the other name. -/
def Links (entries : List CatalogEntry) (name target : String) : Prop :=
  ∃ front e back, entries = front ++ e :: back
    ∧ e.name = name ∧ e.shape = .named target
    ∧ ∀ x ∈ back, x.name = name → ∀ other, x.shape ≠ .named other

/-- Following aliases from a name, one comes to the name of an entry that has a
shape of some kind. -/
def StandsFor (entries : List CatalogEntry) (kind : Shape → Prop)
    (name : String) : Prop :=
  ∃ e ∈ entries, kind e.shape ∧ ReflTransGen (Links entries) name e.name

/-- The names of the entries that have a shape of some kind themselves. -/
def named (entries : List CatalogEntry) (p : Shape → Bool) : List String :=
  (entries.filter fun e => p e.shape).map (·.name)

/-- Passes over aliases until one adds no name, neither to the names of records
nor to those of scalars: how many there are, and what they come to. -/
inductive Passes (aliases : Table String) :
    Nat → List String × List String → List String × List String → Prop
  | last {records scalars : List String} :
      closeOnce aliases records = records →
      closeOnce aliases scalars = scalars →
      Passes aliases 1 (records, scalars) (records, scalars)
  | again {records scalars : List String} {n : Nat}
      {result : List String × List String} :
      closeOnce aliases records ≠ records
        ∨ closeOnce aliases scalars ≠ scalars →
      Passes aliases n
        (closeOnce aliases records, closeOnce aliases scalars) result →
      Passes aliases (n + 1) (records, scalars) result

-- =============================================================== passes

section Rounds

variable {aliases : Table String} {names records scalars : List String}
  {rounds : Nat}

/-- A pass adds no name just when the list is closed. -/
theorem closeOnce_eq_self_iff :
    closeOnce aliases names = names ↔ Closed aliases names := by
  refine ⟨fun h a ha htarget => ?_, closeOnce_of_closed⟩
  have hmem := mem_closeOnce ha htarget
  rwa [h] at hmem

/-- A list that a number of rounds is enough for, after one of them. -/
theorem enough_closeOnce
    (h : Closed aliases names ∨ missing aliases names ≤ rounds + 1) :
    Closed aliases (closeOnce aliases names)
      ∨ missing aliases (closeOnce aliases names) ≤ rounds := by
  by_cases hclosed : Closed aliases names
  · left
    rwa [closeOnce_of_closed hclosed]
  · right
    have hless := missing_closeOnce_lt hclosed
    have hbound := h.resolve_left hclosed
    omega

/-- The passes end, and they come to what a fixed number of rounds comes to that
is enough for both lists. -/
theorem exists_passes
    (hrecords : Closed aliases records ∨ missing aliases records ≤ rounds)
    (hscalars : Closed aliases scalars ∨ missing aliases scalars ≤ rounds) :
    ∃ n ≤ rounds + 1, Passes aliases n (records, scalars)
      (close aliases records rounds, close aliases scalars rounds) := by
  induction rounds generalizing records scalars with
  | zero =>
      have hclosed {names : List String}
          (h : Closed aliases names ∨ missing aliases names ≤ 0) :
          Closed aliases names := h.elim id closed_close
      exact ⟨1, Nat.le_refl 1, .last (closeOnce_of_closed (hclosed hrecords))
        (closeOnce_of_closed (hclosed hscalars))⟩
  | succ rounds ih =>
      by_cases hdone : Closed aliases records ∧ Closed aliases scalars
      · obtain ⟨hr, hs⟩ := hdone
        rw [close_of_closed hr, close_of_closed hs]
        exact ⟨1, Nat.succ_le_succ (Nat.zero_le _),
          .last (closeOnce_of_closed hr) (closeOnce_of_closed hs)⟩
      · obtain ⟨n, hn, hpasses⟩ :=
          ih (enough_closeOnce hrecords) (enough_closeOnce hscalars)
        refine ⟨n + 1, Nat.succ_le_succ hn, .again ?_ hpasses⟩
        rw [ne_eq, ne_eq, closeOnce_eq_self_iff, closeOnce_eq_self_iff]
        exact not_and_or.1 hdone

end Rounds

-- ================================================================ links

variable {entries : List CatalogEntry} {p : Shape → Bool} {name target : String}

/-- The table of aliases binds an alias to what the last of its entries names. -/
theorem mem_aliases_iff :
    (name, target) ∈ aliases entries ↔ Links entries name target := by
  have halias {e : CatalogEntry} {other : String} :
      alias? e = some (name, other) ↔ e.name = name ∧ e.shape = .named other :=
    alias?_eq_some_iff
  show (name, target) ∈ Table.ofList (entries.filterMap alias?) ↔ _
  -- the table keeps the last binding of each name
  rw [Table.mem_ofList_iff]
  constructor
  · rintro ⟨before, behind, hsplit, hbehind⟩
    obtain ⟨front, rest, rfl, -, hrest⟩ := List.filterMap_eq_append_iff.1 hsplit
    obtain ⟨skipped, e, back, rfl, -, he, hback⟩ :=
      List.filterMap_eq_cons_iff.1 hrest
    obtain ⟨hname, hshape⟩ := halias.1 he
    refine ⟨front ++ skipped, e, back, by simp, hname, hshape,
      fun x hx hxname other hother => hbehind ?_⟩
    rw [← hback]
    exact List.mem_map.2 ⟨(name, other), List.mem_filterMap.2
      ⟨x, hx, halias.2 ⟨hxname, hother⟩⟩, rfl⟩
  · rintro ⟨front, e, back, rfl, hname, hshape, hback⟩
    refine ⟨front.filterMap alias?, back.filterMap alias?, ?_, fun hmem => ?_⟩
    · rw [List.filterMap_append,
        List.filterMap_cons_some (halias.2 ⟨hname, hshape⟩)]
    · obtain ⟨⟨_, other⟩, hother, rfl⟩ := List.mem_map.1 hmem
      obtain ⟨x, hx, hx'⟩ := List.mem_filterMap.1 hother
      obtain ⟨hxname, hxshape⟩ := halias.1 hx'
      exact hback x hx hxname other hxshape

/-- An alias is one of one name. -/
theorem Links.unique {other : String} (h : Links entries name target)
    (h' : Links entries name other) : target = other := by
  have hget := Table.mem_ofList_iff_get?.1 (mem_aliases_iff.2 h)
  rw [Table.mem_ofList_iff_get?.1 (mem_aliases_iff.2 h')] at hget
  exact (Option.some.inj hget).symm

/-- The names of a kind are those that stand for it. -/
theorem mem_namesWhere_iff :
    name ∈ namesWhere entries p
      ↔ StandsFor entries (fun s => p s = true) name := by
  constructor
  · refine fun h => close_induct (P := StandsFor entries fun s => p s = true)
      (fun n hn => ?_) (fun a ha hstands => ?_) _ name h
    · obtain ⟨e, he, rfl⟩ := List.mem_map.1 hn
      obtain ⟨he, hp⟩ := List.mem_filter.1 he
      exact ⟨e, he, hp, .refl⟩
    · obtain ⟨e, he, hp, hlinks⟩ := hstands
      exact ⟨e, he, hp, .head (mem_aliases_iff.1 ha) hlinks⟩
  · rintro ⟨e, he, hp, hlinks⟩
    induction hlinks using ReflTransGen.head_induction_on with
    | refl => exact mem_namesWhere he hp
    | head hlink _ ih =>
        exact closed_close List.countP_le_length _ (mem_aliases_iff.2 hlink) ih

/-- Where no two entries have one name, an entry that is no alias has none. -/
theorem not_links (hdistinct : (entries.map (·.name)).Nodup) {e : CatalogEntry}
    (he : e ∈ entries) (hshape : ∀ other, e.shape ≠ .named other) :
    ¬ Links entries e.name target := by
  rintro ⟨front, x, back, hsplit, hname, hx, -⟩
  have hmem : x ∈ entries := by
    rw [hsplit]
    exact List.mem_append_right _ (List.mem_cons_self ..)
  cases List.inj_on_of_nodup_map hdistinct hmem he hname
  exact hshape target hx

/-- Where no two entries have one name, no name stands for shapes of two kinds
that no shape is of both, and no alias of either. -/
theorem StandsFor.not_both {kind kind' : Shape → Prop}
    (hdistinct : (entries.map (·.name)).Nodup)
    (hkind : ∀ other, ¬ kind (.named other))
    (hkind' : ∀ other, ¬ kind' (.named other))
    (hapart : ∀ s, kind s → ¬ kind' s) (h : StandsFor entries kind name)
    (h' : StandsFor entries kind' name) : False := by
  obtain ⟨e, he, hshape, hlinks⟩ := h
  obtain ⟨e', he', hshape', hlinks'⟩ := h'
  have hend : ∀ target, ¬ Links entries e.name target := fun target =>
    not_links hdistinct he fun other heq => hkind other (heq ▸ hshape)
  have hend' : ∀ target, ¬ Links entries e'.name target := fun target =>
    not_links hdistinct he' fun other heq => hkind' other (heq ▸ hshape')
  -- there is one way to go, and it ends at both
  have hunique : Relator.RightUnique (Links entries) :=
    fun _ _ _ h h' => h.unique h'
  have hname : e.name = e'.name := by
    rcases ReflTransGen.total_of_right_unique hunique hlinks hlinks' with h | h
    · rcases ReflTransGen.cases_head h with heq | ⟨target, hlink, -⟩
      · exact heq
      · exact absurd hlink (hend target)
    · rcases ReflTransGen.cases_head h with heq | ⟨target, hlink, -⟩
      · exact heq.symm
      · exact absurd hlink (hend' target)
  cases List.inj_on_of_nodup_map hdistinct he he' hname
  exact hapart e.shape hshape hshape'

end Catalog

namespace Document

open Catalog

variable {d : Document} {c : Catalog} {name : String}

/-- Entries stand in the order of the component schemas. -/
theorem raws_of_catalog (hc : d.catalog = .ok c) :
    c.entries.map (·.raw) = d.schemas.keys := by
  rw [Table.keys, ← List.forall₂_eq_eq_eq, List.forall₂_map_left_iff,
    List.forall₂_map_right_iff]
  refine (forall₂_mapM (entries_of_catalog hc)).flip.imp fun entry e hentry => ?_
  obtain ⟨shape, -, hentry⟩ := Option.bind_eq_some_iff.1 hentry
  cases hentry
  rfl

/-- A name is one of a record when it stands for one. -/
theorem isRecord_iff_standsFor (hc : d.catalog = .ok c) :
    c.isRecord name = true
      ↔ StandsFor c.entries (fun s => ∃ fields, s = .record fields) name := by
  have hkind (s : Shape) :
      isRecordShape s = true ↔ ∃ fields, s = .record fields := by
    cases s <;> simp [isRecordShape]
  rw [isRecord, records_of_catalog hc, List.contains_iff_mem, mem_namesWhere_iff]
  simp only [hkind]

/-- A name is one of a scalar when it stands for one. -/
theorem isScalar_iff_standsFor (hc : d.catalog = .ok c) :
    c.isScalar (.named name) = true
      ↔ StandsFor c.entries (fun s => s.isScalar = true) name := by
  show c.scalars.contains name = true ↔ _
  rw [scalars_of_catalog hc, List.contains_iff_mem, mem_namesWhere_iff]

/-- The passes end at the names of the catalog. -/
theorem exists_passes_of_catalog (hc : d.catalog = .ok c) :
    ∃ n ≤ (aliases c.entries).length + 1, Passes (aliases c.entries) n
      (named c.entries isRecordShape, named c.entries Shape.isScalar)
      (c.records, c.scalars) := by
  rw [records_of_catalog hc, scalars_of_catalog hc]
  exact exists_passes (.inr List.countP_le_length) (.inr List.countP_le_length)

-- ========================================================= main result

/-- A document on whose component schemas mapping ends has a catalog, with an
entry for each of them, in their order. The passes that find the kinds of the
names end, there being one more than there are aliases, at most. A name is then
one of a record just when it stands for one, and of a scalar just when it stands
for one. And if the exported names are different, none is both. -/
theorem kinds_exact {d : Document}
    (h : ∀ e ∈ d.schemas, ∃ depth, (d.shapeWithin? depth e.2).isSome) :
    ∃ c, d.catalog = .ok c
      ∧ List.Forall₂ d.Catalogued d.schemas c.entries
      ∧ c.entries.map (·.raw) = d.schemas.keys
      ∧ (∃ n ≤ (aliases c.entries).length + 1, Passes (aliases c.entries) n
          (named c.entries isRecordShape, named c.entries Shape.isScalar)
          (c.records, c.scalars))
      ∧ (∀ name, c.isRecord name = true
          ↔ StandsFor c.entries (fun s => ∃ fields, s = .record fields) name)
      ∧ (∀ name, c.isScalar (.named name) = true
          ↔ StandsFor c.entries (fun s => s.isScalar = true) name)
      ∧ (d.DistinctNames → ∀ name,
          ¬ (c.isRecord name = true ∧ c.isScalar (.named name) = true)) := by
  obtain ⟨c, hc⟩ := catalog_iff.2 fun e he => by
    obtain ⟨depth, hdepth⟩ := h e he
    obtain ⟨shape, hshape⟩ := Option.isSome_iff_exists.1 hdepth
    have hnode := (hereditary_nodes d).component e he
    exact Option.isSome_iff_exists.2
      ⟨shape, (shape?_eq_some_iff hnode).2 ⟨depth, hshape⟩⟩
  -- with different names an alias has one target, so a name stands for one shape only
  have hcatalogued := forall₂_catalogued (entries_of_catalog hc)
  refine ⟨c, hc, hcatalogued, raws_of_catalog hc, exists_passes_of_catalog hc,
    fun name => isRecord_iff_standsFor hc, fun name => isScalar_iff_standsFor hc,
    fun hdistinct name hboth => ?_⟩
  obtain ⟨hrecord, hscalar⟩ := hboth
  rw [DistinctNames, ← names_of_forall₂ hcatalogued] at hdistinct
  refine StandsFor.not_both hdistinct ?_ ?_ ?_
    ((isRecord_iff_standsFor hc).1 hrecord)
    ((isScalar_iff_standsFor hc).1 hscalar)
  · rintro other ⟨fields, hfields⟩
    cases hfields
  · intro other hother
    cases hother
  · rintro s ⟨fields, rfl⟩ hs
    cases hs

-- ================================================================ a garage

/-- A document with a chain of aliases, one that names itself, and two of one
exported name. -/
def garage : Document where
  openapi := "3.1.0"
  info := { title := "Garage", version := "1" }
  components := some
    { schemas :=
      [("Car", { properties := [("seats", .ofType "integer")] }),
       ("Loop", .ofPointer "#/components/schemas/Loop"),
       ("Plate", .ofType "string"),
       ("Vehicle", .ofPointer "#/components/schemas/Wagon"),
       ("Wagon", .ofPointer "#/components/schemas/Car"),
       ("wagon", .ofPointer "#/components/schemas/Plate")] }

/-- A vehicle is a wagon, and the last wagon is the text of a plate, not a car;
and what is only itself is nothing. -/
theorem kinds_exact_garage :
    (∀ e ∈ garage.schemas, (garage.shapeWithin? 2 e.2).isSome)
      ∧ ∃ c, garage.catalog = .ok c
        ∧ StandsFor c.entries (fun s => s.isScalar = true) "Vehicle"
        ∧ ¬ StandsFor c.entries (fun s => ∃ fields, s = .record fields) "Wagon"
        ∧ StandsFor c.entries (fun s => ∃ fields, s = .record fields) "Car"
        ∧ ¬ StandsFor c.entries (fun s => s.isScalar = true) "Loop" := by
  have hshapes : ∀ e ∈ garage.schemas,
      (garage.shapeWithin? 2 e.2).isSome = true := by
    decide +kernel
  obtain ⟨c, hc, -, -, -, hrecord, hscalar, -⟩ :=
    kinds_exact (d := garage) fun e he => ⟨2, hshapes e he⟩
  -- four questions, evaluated on the catalog at once
  have hkinds : garage.catalog.toOption.map (fun c =>
      [c.isScalar (.named "Vehicle"), c.isRecord "Wagon", c.isRecord "Car",
        c.isScalar (.named "Loop")]) = some [true, false, true, false] := by
    decide +kernel
  rw [hc] at hkinds
  obtain ⟨hvehicle, hkinds⟩ := List.cons_eq_cons.1 (Option.some.inj hkinds)
  obtain ⟨hwagon, hkinds⟩ := List.cons_eq_cons.1 hkinds
  obtain ⟨hcar, hkinds⟩ := List.cons_eq_cons.1 hkinds
  obtain ⟨hloop, -⟩ := List.cons_eq_cons.1 hkinds
  refine ⟨hshapes, c, hc, (hscalar _).1 hvehicle, fun h => ?_,
    (hrecord _).1 hcar, fun h => ?_⟩
  · exact Bool.false_ne_true (hwagon.symm.trans ((hrecord _).2 h))
  · exact Bool.false_ne_true (hloop.symm.trans ((hscalar _).2 h))

end Document

end ApiForge
