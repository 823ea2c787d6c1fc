import ApiForge.Proofs.Document.Twin
/-!
What is read of a JSON tree is read of its node.

Every reader is composed of few parts, and for each part there is a rule about twins
(`Item.Twin.record` and its like). So the whole document is read alike
(`Document.mirrors_read`). Where a reader settles an item first, both sides go on with
one tree. Schemas are read with fuel, of which a node gets more than it needs: the rules
are about two readers, so that they may have different fuel.
-/

namespace ApiForge

open Yaml (Node)

namespace Item

variable {α : Type} {spot : Spot} {i j : Item}

-- ============================================================ containers

/-- A field that may be left out. -/
theorem Twin.optional {read read' : Item → Read α} (h : Twin spot i j)
    (hread : ∀ i j, Twin spot i j → Mirrors Eq (read i) (read' j)) :
    Mirrors Eq (i.optional read) (j.optional read') := by
  refine h.target.bind fun i j h => h.isAbsent.bind fun absent _ habsent => ?_
  subst habsent
  cases absent with
  | true => exact .refl _
  | false =>
      refine (hread i j h).bind fun a _ ha => ?_
      subst ha
      exact .refl _

/-- A list, all items of which are read alike. -/
theorem Twin.listOf {read read' : Item → Read α} (h : Twin spot i j)
    (hread : ∀ i j, Twin spot.item i j → Mirrors Eq (read i) (read' j)) :
    Mirrors Eq (i.listOf read) (j.listOf read') := by
  refine h.list.bind fun l l' hl => ?_
  refine (Mirrors.mapM (hl.imp hread)).mono fun r r' hr => ?_
  exact List.forall₂_eq_eq_eq ▸ hr

/-- A table, all entries of which are read alike. -/
theorem Twin.table {read read' : Item → Read α} (h : Twin spot i j)
    (hread : ∀ key i j, Twin (spot.member key) i j → Mirrors Eq (read i) (read' j)) :
    Mirrors Eq (i.table read) (j.table read') := by
  refine h.bindings.bind fun l l' hl => ?_
  refine Mirrors.bind (R := Eq) ?_ fun entries _ hentries => hentries ▸ .refl _
  refine (Mirrors.mapM (S := Eq) (hl.imp ?_)).mono fun r r' hr =>
    List.forall₂_eq_eq_eq ▸ hr
  rintro ⟨key, i⟩ ⟨_, j⟩ ⟨rfl, h⟩
  exact (hread key i j h).map fun a => (key, a)

-- ============================================================== records

/-- The same fields are given, by name or by order on both sides. -/
structure Given.Twin (spot : Spot) (g g' : Given) : Prop where
  fields : List.Forall₂ (fun f f' => f.1 = f'.1 ∧ Item.Twin (spot.member f.1) f.2 f'.2)
    g.fields g'.fields
  listed : g.listed = g'.listed
  surplus : g.surplus = g'.surplus

theorem names_eq {S : String × Item → String × Item → Prop} {l l' : List (String × Item)}
    (h : List.Forall₂ (fun f f' => f.1 = f'.1 ∧ S f f') l l') :
    l.map (·.1) = l'.map (·.1) := by
  induction h with
  | nil => rfl
  | cons hf _ ih => rw [List.map_cons, List.map_cons, hf.1, ih]

/-- Whether a field is given twice depends on the names of the fields. -/
theorem mirrors_distinct {S : String × Item → String × Item → Prop}
    {l l' : List (String × Item)} (h : List.Forall₂ (fun f f' => f.1 = f'.1 ∧ S f f') l l') :
    Mirrors (List.Forall₂ fun f f' => f.1 = f'.1 ∧ S f f') (distinct l) (distinct l') := by
  have hpure {l : List (String × Item)} (hl : (l.map (·.1)).Nodup) : distinct l = pure l := by
    unfold distinct
    rw [nodup_iff_find?.1 hl]
  by_cases hl : (l.map (·.1)).Nodup
  · rw [hpure hl, hpure (names_eq h ▸ hl)]
    exact .pure h
  · exact .of_fails ((yields_distinct l).mono fun _ hd => hl hd.2)

/-- The bindings of a map that are fields. -/
theorem fields_node (layout : Layout) (targets : List (Nat × Node)) (limit depth : Nat)
    (cs : List (Node × Node)) :
    fields layout (place ⟨targets, limit, depth + 1, .map none cs⟩) = do
      let named ← cs.filterMapM fun c => do
        let key ← Place.text "a string" ⟨targets, limit, depth, c.1⟩
        return (layout.fields.find? (· == key)).map fun f =>
          (f, place ⟨targets, limit, depth, c.2⟩)
      return { fields := ← distinct named } :=
  rfl

/-- Nothing but an object or a list gives fields. -/
theorem yields_fields_leaf (layout : Layout) {t : Tree} (hmap : ∀ bs, t ≠ .map bs)
    (hseq : ∀ ts, t ≠ .seq ts) : Yields (fields layout (.tree false t)) fun _ => False := by
  cases t with
  | map bs => exact absurd rfl (hmap bs)
  | seq ts => exact absurd rfl (hseq ts)
  | _ =>
      dsimp only [fields]
      exact yields_unexpected _ _

/-- The same fields are given by both writings of a record, with twins for values. -/
theorem Twin.fields (h : Twin spot i j) (hrecord : spot.isRecord = true) (layout : Layout) :
    Mirrors (Given.Twin spot) (i.fields layout) (j.fields layout) := by
  cases h with
  | same =>
      refine (Mirrors.refl _).mono fun g g' hg => ?_
      subst hg
      exact ⟨List.forall₂_same.2 fun f _ => ⟨rfl, .same f.2⟩, rfl, rfl⟩
  | @node t p hnode hdepth hname =>
      obtain ⟨targets, limit, depth, n⟩ := p
      cases hnode with
      | @map bs cs hbindings =>
          obtain ⟨depth, rfl⟩ := exists_depth (t := .map bs) (Nat.succ_pos _) hdepth
          have hbound := twin_bindings targets limit hbindings
            (Nat.le_of_succ_le_succ hdepth) hname
          rw [fields_node]
          -- members of other names are dropped from both, the others are paired
          refine Mirrors.bind
            (R := List.Forall₂ fun f f' => f.1 = f'.1 ∧ Twin (spot.member f.1) f.2 f'.2)
            (.filterMapM (hbound.imp ?_)) fun l l' hl =>
              (mirrors_distinct hl).bind fun d d' hd => .pure ⟨hd, rfl, rfl⟩
          rintro b c ⟨key, t, n, rfl, rfl, hmember⟩
          refine .pure ?_
          cases hfound : layout.fields.find? (· == key) with
          | none => exact .none
          | some f =>
              have hf := List.find?_some hfound
              obtain rfl := eq_of_beq hf
              exact .some ⟨rfl, hmember⟩
      | @seq ts ns hitems =>
          rw [Tree.byName, hrecord] at hname
          cases hname
      | word h =>
          cases h <;>
            exact .of_fails (yields_fields_leaf layout (by rintro _ ⟨⟩) (by rintro _ ⟨⟩))
      | _ => exact .of_fails (yields_fields_leaf layout (by rintro _ ⟨⟩) (by rintro _ ⟨⟩))

/-- A record that is taken in alike, field by field. -/
theorem Twin.record {layout : Layout} {start : α} {set set' : α → String → Item → Read α}
    (h : Twin spot i j) (hrecord : spot.isRecord = true)
    (hset : ∀ a f i j, Twin (spot.member f) i j → Mirrors Eq (set a f i) (set' a f j)) :
    Mirrors Eq (i.record layout start set) (j.record layout start set') := by
  refine (h.fields hrecord layout).bind fun g g' hg => ?_
  refine Mirrors.bind (R := Eq) ?_ fun a _ ha => ?_
  · refine .foldlM (hg.fields.imp fun f f' hf a => ?_) start
    obtain ⟨hname, hitem⟩ := hf
    rw [← hname]
    exact hset a f.1 f.2 f'.2 hitem
  · -- what is missing depends on the names of the fields
    have hmissing (f : String) :
        (g.fields.any fun e => e.1 == f) = g'.fields.any fun e => e.1 == f := by
      have hany (l : List (String × Item)) :
          (l.any fun e => e.1 == f) = (l.map (·.1)).any (· == f) := by
        rw [List.any_map]
        rfl
      rw [hany, hany, names_eq hg.fields]
    subst ha
    simp only [hmissing, hg.listed, hg.surplus]
    exact .refl _

end Item

-- ============================================================== choices

namespace Read

variable {α : Type} {a a' b b' : Read α}

/-- One first choice, and second choices that are alike. -/
theorem mirrors_orElse (hb : Mirrors Eq b b') :
    Mirrors Eq (Read.orElse a b) (Read.orElse a b') := by
  intro n x n' hrun
  cases hfirst : a.run n with
  | ok r =>
      rw [run_orElse_of_ok hfirst] at hrun ⊢
      exact ⟨x, hrun, rfl⟩
  | error e =>
      rw [run_orElse_of_error hfirst] at hrun ⊢
      exact hb n x n' hrun

/-- A last choice. -/
theorem mirrors_orElse_fail (ha : Mirrors Eq a a') (e : ReadError) :
    Mirrors Eq (Read.orElse a (.fail e)) (Read.orElse a' (.fail e)) := by
  intro n x n' hrun
  cases hfirst : a.run n with
  | ok r =>
      rw [run_orElse_of_ok hfirst] at hrun
      cases hrun
      obtain ⟨y, hsecond, hxy⟩ := ha n x n' hfirst
      exact ⟨y, run_orElse_of_ok hsecond, hxy⟩
  | error e' =>
      rw [run_orElse_of_error hfirst] at hrun
      cases hrun

end Read

open Item (Twin)

variable {spot : Spot} {i j : Item}

/-- An entry that may be a pointer is settled first. -/
theorem Referable.mirrors_read {α : Type} (inner : Item → Read α) (h : Twin spot i j) :
    Mirrors Eq (Referable.read inner i) (Referable.read inner j) := by
  refine h.settle.bind fun t _ ht => ?_
  subst ht
  exact .refl _

namespace Schema

theorem mirrors_readTypeName (h : Twin spot i j) :
    Mirrors Eq (readTypeName i) (readTypeName j) := by
  refine h.settle.bind fun t _ ht => ?_
  subst ht
  exact .refl _

/-- The types of a schema are read alike, whether one name or a list of them. -/
theorem mirrors_readTypes (h : Twin spot i j) : Mirrors Eq (readTypes i) (readTypes j) := by
  cases h with
  | same => exact .refl _
  | @node t p hnode hdepth hname =>
      obtain ⟨targets, limit, depth, n⟩ := p
      have hleaf {s : String} {style : Yaml.ScalarStyle} (hn : n = .scalar none s style)
          (ht : t.readable = true) : readTypes (.place ⟨targets, limit, depth, n⟩)
            = readTypes.ofLeaf "a type name or a list of type names" t := by
        have hsettle := Item.settle_of_twin targets limit hnode hdepth ht
        subst hn
        show Item.settle _ >>= _ = _
        rw [hsettle]
        rfl
      -- a list is read item by item, and any other value as a leaf
      cases hnode with
      | @seq ts ns hitems =>
          have h : Twin spot (.tree false (.seq ts))
              (.place ⟨targets, limit, depth, .seq none ns⟩) :=
            .node (.seq hitems) hdepth hname
          exact h.listOf fun _ _ h => mirrors_readTypeName h
      | word h =>
          rw [hleaf rfl (by cases h <;> rfl)]
          cases h <;> exact .refl _
      | string s =>
          rw [hleaf rfl rfl]
          exact .refl _
      | @map bs cs h =>
          refine .of_fails ?_
          show Yields (Item.unexpected (.tree true (.map bs)) _) _
          exact Item.yields_unexpected _ _
      | unreadable h => exact .throw ReadError.unreadable

/-- More fuel reads no less. -/
theorem mirrors_readWithin {n m : Nat} (hnm : n ≤ m) {i j : Item} (h : Twin .schema i j) :
    Mirrors Eq (readWithin n i) (readWithin m j) := by
  induction n generalizing m i j with
  | zero => exact .throw _
  | succ n ih =>
      obtain ⟨m, rfl⟩ : ∃ k, m = k + 1 := Nat.exists_eq_add_of_le' (by omega)
      have inner {i j : Item} (h : Twin .schema i j) :
          Mirrors Eq (readWithin n i) (readWithin m j) :=
        ih (Nat.le_of_succ_le_succ hnm) h
      -- a setting for further properties is read after its tree is settled, so both
      -- give the same tree
      have additional {spot : Spot} {i j : Item} (h : Twin spot i j) :
          Mirrors Eq (readAdditional (readWithin n) i) (readAdditional (readWithin m) j) := by
        refine h.settle.bind fun t _ ht => ?_
        subst ht
        refine Read.mirrors_orElse (Read.mirrors_orElse_fail ?_ _)
        exact (inner (.same (Item.tree true t))).map Additional.shaped
      rw [readWithin, readWithin]
      refine h.record rfl fun s f i j h => ?_
      split
      · exact (h.optional fun _ _ h => h.text).map _
      · exact (mirrors_readTypes h).map _
      · exact (h.optional fun _ _ h => h.text).map _
      · exact (h.optional fun _ _ h => h.text).map _
      · exact (h.optional fun _ _ h => h.text).map _
      · exact (h.table fun _ _ _ h => inner h).map _
      · exact (h.optional fun _ _ h => inner h).map _
      · exact (h.optional fun _ _ h => additional h).map _
      · exact (h.listOf fun _ _ h => h.text).map _
      · exact (h.listOf fun _ _ h => h.value).map _
      · exact (h.listOf fun _ _ h => inner h).map _
      · exact (h.listOf fun _ _ h => inner h).map _
      · exact (h.listOf fun _ _ h => inner h).map _
      · exact (h.optional fun _ _ h => inner h).map _
      · exact (h.optional fun _ _ h => h.flag).map _
      · exact h.flag.map _
      · exact .refl _

/-- A schema is read alike in both writings. -/
theorem mirrors_read (h : Twin .schema i j) : Mirrors Eq (read i) (read j) := by
  cases h with
  | same => exact .refl _
  | node hnode hdepth hname =>
      exact mirrors_readWithin (Nat.succ_le_succ hdepth) (.node hnode hdepth hname)

end Schema

theorem Clause.mirrors_readList (h : Twin .free i j) :
    Mirrors Eq (Clause.readList i) (Clause.readList j) :=
  h.listOf fun _ _ h => h.table fun _ _ _ h => h.listOf fun _ _ h => h.text

/-- An operation is read alike in both writings. -/
theorem Operation.mirrors_read (h : Twin .operation i j) :
    Mirrors Eq (Operation.read i) (Operation.read j) := by
  refine h.record rfl fun o f i j h => ?_
  split
  · exact (h.optional fun _ _ h => h.text).map _
  · exact (h.optional fun _ _ h => h.text).map _
  · exact (h.optional fun _ _ h => h.text).map _
  · exact (h.listOf fun _ _ h => h.text).map _
  · exact (h.listOf fun _ _ h => Referable.mirrors_read _ h).map _
  · exact (h.optional fun _ _ h => Referable.mirrors_read _ h).map _
  · exact (h.table fun _ _ _ h => Referable.mirrors_read _ h).map _
  · exact (h.optional fun _ _ h => Clause.mirrors_readList h.free).map _
  · exact h.flag.map _
  · exact .refl _

/-- An item is read alike in both writings. -/
theorem PathItem.mirrors_read (h : Twin .path i j) :
    Mirrors Eq (PathItem.read i) (PathItem.read j) := by
  refine h.record rfl fun p f i j h => ?_
  split
  · exact (h.optional fun _ _ h => h.text).map _
  · exact (h.optional fun _ _ h => h.text).map _
  · exact (h.listOf fun _ _ h => Referable.mirrors_read _ h).map _
  · split
    · rename_i verb hverb
      have hkey := List.find?_some hverb
      have hany : (Verb.all.any fun v => v.key == f) = true :=
        List.any_eq_true.2 ⟨verb, List.mem_of_find?_eq_some hverb, hkey⟩
      have hspot : Spot.path.member f = .operation := if_pos hany
      rw [hspot] at h
      exact (h.optional fun _ _ h => Operation.mirrors_read h).map _
    · exact .refl _

namespace SecurityScheme

/-- The kind of a security scheme is written as a text. -/
theorem yields_readKindName_tree (settled : Bool) (t : Tree) :
    Yields (readKindName (.tree settled t)) fun _ => ∃ s, t = .str s := by
  cases t with
  | str s => exact fun _ _ _ _ => ⟨s, rfl⟩
  | _ =>
      dsimp only [readKindName]
      exact Item.yields_unexpected _ _

/-- The kind of a security scheme is read alike in both writings. -/
theorem mirrors_readKindName (h : Twin spot i j) :
    Mirrors Eq (readKindName i) (readKindName j) := by
  cases h with
  | same => exact .refl _
  | @node t p hnode hdepth hname =>
      obtain ⟨targets, limit, depth, n⟩ := p
      by_cases ht : ∃ s, t = .str s
      · obtain ⟨s, rfl⟩ := ht
        cases hnode with
        | string s => exact .refl _
        | word h => cases h
      · exact .of_fails ((yields_readKindName_tree false t).mono fun _ h => ht h)

/-- The bindings of a scheme, the keys of which are the same on both sides. -/
theorem mirrors_splitBindings {l l' : List (Tree × Item)}
    (h : List.Forall₂ (fun e e' => e.1 = e'.1 ∧ Twin spot e.2 e'.2) l l') :
    Mirrors Eq (splitBindings l) (splitBindings l') := by
  refine Mirrors.bind (R := Eq) (.foldlM (h.imp ?_) _) fun s _ hs => hs ▸ .refl _
  rintro ⟨key, i⟩ ⟨_, j⟩ ⟨rfl, h⟩ s
  dsimp only
  split
  · split
    · exact .throw _
    · exact (mirrors_readKindName h).map _
  · exact h.settle.map _

/-- The items of a scheme that is given as a list are split alike. -/
theorem mirrors_splitItems {l l' : List Item} (h : List.Forall₂ (Twin spot) l l') :
    Mirrors Eq (splitItems l) (splitItems l') := by
  cases h with
  | nil => exact .refl _
  | cons hkind hothers =>
      refine (mirrors_readKindName hkind).bind fun kind _ hk => ?_
      subst hk
      refine Mirrors.bind (R := Eq) ?_ fun others _ ho => ho ▸ .refl _
      exact (Mirrors.mapM (hothers.imp fun _ _ h => h.settle)).mono fun r r' hr =>
        List.forall₂_eq_eq_eq ▸ hr

section

variable {targets : List (Nat × Node)} {limit depth : Nat}

theorem read_tree_map (bs : List (Tree × Tree)) :
    read (.tree false (.map bs))
      = splitBindings (bs.map fun b => (b.1, .tree false b.2)) >>= fun r => readKind r.1 r.2 :=
  rfl

theorem read_tree_seq (ts : List Tree) :
    read (.tree false (.seq ts))
      = splitItems (ts.map (.tree false)) >>= fun r => readKind r.1 r.2 :=
  rfl

/-- Nothing but an object or a list is a scheme. -/
theorem yields_read_leaf {t : Tree} (hmap : ∀ bs, t ≠ .map bs) (hseq : ∀ ts, t ≠ .seq ts) :
    Yields (read (.tree false t)) fun _ => False := by
  have hleaf : read (.tree false t)
      = Item.unexpected (.tree false t) "internally tagged enum SecurityScheme"
        >>= fun r : String × Item => readKind r.1 r.2 := by
    cases t with
    | map bs => exact absurd rfl (hmap bs)
    | seq ts => exact absurd rfl (hseq ts)
    | _ => rfl
  rw [hleaf]
  exact (Item.yields_unexpected (P := fun _ => False) _ _).bind fun _ h => h.elim

theorem read_node_map (cs : List (Node × Node)) :
    read (.place ⟨targets, limit, depth + 1, .map none cs⟩)
      = (cs.mapM fun c => do
          let k ← (Item.place ⟨targets, limit, depth, c.1⟩).settle
          return (k, Item.place ⟨targets, limit, depth, c.2⟩))
        >>= fun bs => splitBindings bs >>= fun r => readKind r.1 r.2 :=
  rfl

/-- In the other writing, too, a list is split by position. -/
theorem read_node_seq (ns : List Node) :
    read (.place ⟨targets, limit, depth + 1, .seq none ns⟩)
      = splitItems (ns.map fun n => .place ⟨targets, limit, depth, n⟩)
        >>= fun r => readKind r.1 r.2 :=
  rfl

/-- A security scheme is read alike in both writings. -/
theorem mirrors_read (h : Twin spot i j) : Mirrors Eq (read i) (read j) := by
  cases h with
  | same => exact .refl _
  | @node t p hnode hdepth hname =>
      obtain ⟨targets, limit, depth, n⟩ := p
      cases hnode with
      | @map bs cs hbindings =>
          obtain ⟨depth, rfl⟩ := Item.exists_depth (t := .map bs) (Nat.succ_pos _) hdepth
          have hbound := Item.twin_bindings targets limit hbindings
            (Nat.le_of_succ_le_succ hdepth) hname
          -- the keys of a node are settled to texts, which is what they are in the tree
          obtain ⟨l, hl, htwins⟩ : ∃ l : List (Tree × Item),
              (cs.mapM fun c => do
                let k ← (Item.place ⟨targets, limit, depth, c.1⟩).settle
                return (k, Item.place ⟨targets, limit, depth, c.2⟩)) = pure l
              ∧ List.Forall₂ (fun e e' => e.1 = e'.1 ∧ Twin .free e.2 e'.2)
                (bs.map fun b => (b.1, .tree false b.2)) l := by
            clear hbindings hdepth hname
            induction hbound with
            | nil => exact ⟨[], rfl, .nil⟩
            | cons hb _ ih =>
                obtain ⟨key, t, n, rfl, rfl, hmember⟩ := hb
                obtain ⟨l, hl, htwins⟩ := ih
                have hkey := Item.settle_of_twin targets limit
                  (.string key) (Nat.zero_le depth) rfl
                refine ⟨(.str key, .place ⟨targets, limit, depth, n⟩) :: l, ?_,
                  .cons ⟨rfl, hmember.free⟩ htwins⟩
                rw [List.mapM_cons, hl, hkey]
                rfl
          rw [read_tree_map, read_node_map, hl, pure_bind]
          exact (mirrors_splitBindings htwins).bind fun r _ hr => hr ▸ .refl _
      | @seq ts ns hitems =>
          obtain ⟨depth, rfl⟩ := Item.exists_depth (t := .seq ts) (Nat.succ_pos _) hdepth
          rw [Tree.byName, Bool.and_eq_true] at hname
          have hbound := Item.twin_items targets limit hitems
            (Nat.le_of_succ_le_succ hdepth) hname.2
          rw [read_tree_seq, read_node_seq]
          exact (mirrors_splitItems hbound).bind fun r _ hr => hr ▸ .refl _
      | word h =>
          cases h <;> exact .of_fails (yields_read_leaf (by rintro _ ⟨⟩) (by rintro _ ⟨⟩))
      | _ => exact .of_fails (yields_read_leaf (by rintro _ ⟨⟩) (by rintro _ ⟨⟩))

end

end SecurityScheme

/-- Components are read alike in both writings. -/
theorem Components.mirrors_read (h : Twin .components i j) :
    Mirrors Eq (Components.read i) (Components.read j) := by
  refine h.record rfl fun c f i j h => ?_
  split
  · exact (h.table fun _ _ _ h => Schema.mirrors_read h).map _
  · exact (h.table fun _ _ _ h => Referable.mirrors_read _ h).map _
  · exact (h.table fun _ _ _ h => Referable.mirrors_read _ h).map _
  · exact (h.table fun _ _ _ h => Referable.mirrors_read _ h).map _
  · exact (h.table fun _ _ _ h => SecurityScheme.mirrors_read h).map _
  · exact .refl _

/-- The title and the version are read alike in both writings. -/
theorem Info.mirrors_read (h : Twin .info i j) : Mirrors Eq (Info.read i) (Info.read j) := by
  refine h.record rfl fun c f i j h => ?_
  split
  · exact h.text.map _
  · exact h.text.map _
  · exact (h.optional fun _ _ h => h.text).map _
  · exact .refl _

/-- What is read of a JSON document is read of its node. -/
theorem Document.mirrors_read (h : Twin .document i j) :
    Mirrors Eq (Document.read i) (Document.read j) := by
  refine h.record rfl fun d f i j h => ?_
  split
  · exact h.text.map _
  · exact (Info.mirrors_read h).map _
  · exact (h.optional fun _ _ h => h.table fun _ _ _ h => PathItem.mirrors_read h).map _
  · exact (h.table fun _ _ _ h => PathItem.mirrors_read h).map _
  · exact (h.optional fun _ _ h => Components.mirrors_read h).map _
  · exact (h.optional fun _ _ h => Clause.mirrors_readList h.free).map _
  · exact .refl _

end ApiForge
