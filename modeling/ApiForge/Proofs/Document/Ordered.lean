import ApiForge.Document.Read
import ApiForge.Proofs.Document.Canonical
import ApiForge.Proofs.Outcome
import ApiForge.Proofs.Table
/-!
The tables of a document stand in key order.

`Document.Ordered` says so of the paths and of the security clauses: these are
walked in list order, and that is to be the order of their keys. Every document
that is loaded is ordered (`ordered_of_load`), since a table comes from
`Table.ofList` and is sorted (`Table.sorted_ofList`). And an ordered document
stays so in its canonical form.
-/

namespace ApiForge

-- =================================================================== order

/-- The clauses of a list, if there is one, hold their schemes in order. -/
def ClausesOrdered (cs : Option (List Clause)) : Prop :=
  ∀ l ∈ cs, ∀ c ∈ l, Table.Sorted c

/-- The operations of a path have clauses in order. -/
def PathItem.Ordered (p : PathItem) : Prop :=
  ∀ v, ∀ o ∈ p.operation v, ClausesOrdered o.security

theorem PathItem.ordered_empty : ({} : PathItem).Ordered :=
  fun _ o ho => absurd ho (Option.not_mem_none o)

/-- An item stays in order when it gets an operation whose clauses are. -/
theorem PathItem.Ordered.withOperation {p : PathItem} (hp : p.Ordered)
    {verb : Verb} {op : Option Operation}
    (hop : ∀ o ∈ op, ClausesOrdered o.security) :
    (p.withOperation verb op).Ordered := by
  intro v o ho
  rw [PathItem.withOperation] at ho
  dsimp only at ho
  by_cases hv : v = verb
  · rw [if_pos hv] at ho
    exact hop o ho
  · rw [if_neg hv] at ho
    exact hp v o ho

/-- The paths of a document, and its clauses, stand in order. -/
structure Document.Ordered (d : Document) : Prop where
  paths : d.pathTable.Sorted
  items : ∀ e ∈ d.pathTable, e.2.Ordered
  clauses : ClausesOrdered d.security

/-- The clauses that apply to an operation are in order. -/
theorem Document.Ordered.applying {d : Document} (h : d.Ordered)
    {e : Document.Endpoint} (he : e ∈ d.operations) :
    ClausesOrdered (e.operation.security.or d.security) := by
  obtain ⟨⟨path, item⟩, hpath, hmem⟩ := List.mem_flatMap.1 he
  obtain ⟨⟨v, o⟩, ho, rfl⟩ := List.mem_map.1 hmem
  have hown : ClausesOrdered o.security :=
    h.items _ hpath v o (PathItem.operation_of_mem ho)
  intro l hl
  rcases Option.or_eq_some_iff.1 hl with hl | ⟨-, hl⟩
  · exact hown l hl
  · exact h.clauses l hl

-- ================================================================= reading

namespace Item

variable {α : Type} {P : α → Prop} {read : Item → Read α}

theorem yields_listOf (h : ∀ item, Yields (read item) P) (item : Item) :
    Yields (item.listOf read) fun l => ∀ a ∈ l, P a :=
  .skip fun _ => .mapM h

/-- An option yields what its member does. -/
theorem yields_optional (h : ∀ item, Yields (read item) P) (item : Item) :
    Yields (item.optional read) fun o => ∀ a ∈ o, P a := by
  refine .skip fun item => .skip fun absent => ?_
  split
  · exact .pure fun a ha => absurd ha (Option.not_mem_none a)
  · refine (h item).bind fun a ha => .pure fun b hb => ?_
    cases hb
    exact ha

/-- A table that is read stands in order. -/
theorem yields_table (h : ∀ item, Yields (read item) P) (item : Item) :
    Yields (item.table read) fun t => t.Sorted ∧ ∀ e ∈ t, P e.2 := by
  refine .skip fun bindings => Yields.bind (P := fun l => ∀ e ∈ l, P e.2)
    (.mapM fun b => ?_) fun l hl => .pure ?_
  · obtain ⟨k, v⟩ := b
    exact (h v).bind fun a ha => .pure ha
  · exact ⟨Table.sorted_ofList l, fun e he => hl e (Table.mem_ofList he)⟩

/-- What holds of a record without fields, and is kept by taking in a field,
holds of whatever record is read. -/
theorem yields_record {layout : Layout} {start : α}
    {set : α → String → Item → Read α} (hstart : P start)
    (hset : ∀ a field item, P a → Yields (set a field item) P) (item : Item) :
    Yields (item.record layout start set) P := by
  refine .skip fun given => ?_
  have hfields : Yields
      (given.fields.foldlM (fun a f => set a f.1 f.2) start) P :=
    .foldlM hstart fun a f ha => hset a f.1 f.2 ha
  refine hfields.bind fun a ha => ?_
  split
  · split
    · exact .throw _
    · exact .throw _
  · split
    · exact .throw _
    · exact .pure ha

end Item

/-- The clauses that are read have their schemes in order. -/
theorem Clause.yields_readList (item : Item) :
    Yields (Clause.readList item) fun cs => ∀ c ∈ cs, Table.Sorted c := by
  refine Item.yields_listOf (fun item => ?_) item
  have htable : Yields (item.table fun item => item.listOf Item.text) fun t =>
      t.Sorted ∧ ∀ e ∈ t, True :=
    Item.yields_table (fun _ _ _ _ _ => trivial) item
  exact fun n t n' hrun => (htable n t n' hrun).1

/-- An operation that is read has its clauses in order. -/
theorem Operation.yields_read (item : Item) :
    Yields (Operation.read item) fun o => ClausesOrdered o.security := by
  refine Item.yields_record ?_ (fun o field item ho => ?_) item
  · exact fun l hl => absurd hl (Option.not_mem_none l)
  · split
    case h_8 =>
      exact (Item.yields_optional Clause.yields_readList item).bind
        fun cs hcs => .pure hcs
    case h_10 => exact .pure ho
    all_goals exact .skip fun _ => .pure ho

/-- An item that is read is in order. -/
theorem PathItem.yields_read (item : Item) :
    Yields (PathItem.read item) PathItem.Ordered := by
  refine Item.yields_record PathItem.ordered_empty (fun p field item hp => ?_)
    item
  · split
    case h_4 =>
      split
      · exact (Item.yields_optional Operation.yields_read item).bind
          fun op hop => .pure (hp.withOperation hop)
      · exact .pure hp
    all_goals exact .skip fun _ => .pure hp

namespace Document

/-- A document that is read is in order: tables sort their keys. -/
theorem yields_read (item : Item) : Yields (Document.read item) Ordered := by
  refine Item.yields_record ?_ (fun d field item hd => ?_) item
  · exact ⟨.nil, fun e he => absurd he List.not_mem_nil,
      fun l hl => absurd hl (Option.not_mem_none l)⟩
  · split
    case h_3 =>
      have htable : Yields
          (item.optional fun item => item.table PathItem.read) fun paths =>
            ∀ t ∈ paths, t.Sorted ∧ ∀ e ∈ t, e.2.Ordered :=
        Item.yields_optional (Item.yields_table PathItem.yields_read) item
      refine htable.bind fun paths hpaths => .pure ?_
      cases paths with
      | none =>
          exact ⟨.nil, fun e he => absurd he List.not_mem_nil, hd.clauses⟩
      | some t =>
          obtain ⟨hsorted, hitems⟩ := hpaths t rfl
          exact ⟨hsorted, hitems, hd.clauses⟩
    case h_6 =>
      exact (Item.yields_optional Clause.yields_readList item).bind
        fun cs hcs => .pure ⟨hd.paths, hd.items, hcs⟩
    case h_7 => exact .pure hd
    all_goals exact .skip fun _ => .pure ⟨hd.paths, hd.items, hd.clauses⟩

/-- A document that is loaded has been read from an item. -/
theorem exists_run_of_load {form : Syntax} {octets : List UInt8} {d : Document}
    (h : load form octets = .ok d) :
    ∃ item n, (read item).run 0 = .ok (d, n) := by
  -- in either syntax the document is read from an item, and only the error is named
  -- otherwise
  have hitem (item : Item) (wrap : String → LoadError)
      (h : (ofItem item).mapError wrap = .ok d) :
      ∃ item n, (read item).run 0 = .ok (d, n) := by
    rw [ofItem] at h
    cases hrun : (read item).run 0 with
    | error e => rw [hrun] at h; cases h
    | ok r =>
        rw [hrun] at h
        cases h
        exact ⟨item, r.2, hrun⟩
  cases form with
  | yaml =>
      rw [load] at h
      split at h
      · exact hitem _ _ h
      · cases h
  | json =>
      rw [load] at h
      split at h
      · exact hitem _ _ h
      · cases h

/-- Every document that is loaded is ordered. -/
theorem ordered_of_load {form : Syntax} {octets : List UInt8} {d : Document}
    (h : load form octets = .ok d) : d.Ordered := by
  obtain ⟨item, n, hrun⟩ := exists_run_of_load h
  exact yields_read item 0 d n hrun

end Document

-- =============================================================== canonical

variable {R : Schema → Schema → Prop}

/-- Items that are alike are both in order, or neither is. -/
theorem PathItem.Alike.ordered {p p' : PathItem}
    (h : PathItem.Alike R p p') (hp : p.Ordered) : p'.Ordered := by
  intro v o' ho'
  have hop := h.operation v
  rw [Option.mem_def.1 ho'] at hop
  cases ho : p.operation v with
  | none => rw [ho] at hop; cases hop
  | some o =>
      rw [ho] at hop
      cases hop with
      | some hop =>
          rw [hop.frame]
          exact hp v o ho

namespace Document

/-- Schemas do not matter to the order. -/
theorem Alike.ordered {d d' : Document} (h : Document.Alike R d d')
    (hd : d.Ordered) : d'.Ordered := by
  have hpaths : Table.Alike (PathItem.Alike R) d.pathTable d'.pathTable := by
    have hrel := h.paths
    rw [pathTable, pathTable]
    generalize d.paths = t at hrel
    generalize d'.paths = t' at hrel
    cases hrel with
    | none => exact .nil
    | some htable => exact htable
  refine ⟨?_, fun e' he' => ?_, ?_⟩
  · rw [Table.sorted_iff_keys, hpaths.keys, ← Table.sorted_iff_keys]
    exact hd.paths
  · obtain ⟨e, he, hitem⟩ := exists_of_forall₂ hpaths.flip e' he'
    cases hitem with
    | intro hitem => exact hitem.ordered (hd.items _ he)
  · rw [h.frame]
    exact hd.clauses

/-- The canonical form of an ordered document is ordered. -/
theorem Ordered.canonical {d : Document} (h : d.Ordered) :
    d.canonical.1.Ordered :=
  d.canonical_settles.1.ordered h

end Document

end ApiForge
