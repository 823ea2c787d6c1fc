import ApiForge.Proofs.Document.Reading
import ApiForge.Proofs.Json.Keys
/-!
Records read off the objects and lists of JSON text.

# Fields

The keys of an object are texts, or cannot be read (`Json.Text.keys_of_read?`), and
its `Tree.members` are the bindings with a text. `Item.GivesFields` says which fields
a tree gives for a record: the known members of an object, each once, or the items of
a list that is not too long, with the required ones among them. Off such a tree a
record takes in these fields (`Item.record_of_fields`), and off any other it is not
read (`Item.yields_record_tree`).

# Exact readers

A reader is exact for a relation if it reads off a tree what is related to it, and
nothing else (`Item.Exact`). There is a rule for texts, for variants and for fields
that may be absent.
-/

namespace ApiForge

open Json.Text (IsKey)

/-- The members of an object whose names are texts. -/
def Tree.members (bindings : List (Tree × Tree)) : Table Tree :=
  bindings.filterMap fun b =>
    match b.1 with
    | .str name => some (name, b.2)
    | _ => none

namespace Item

variable {α β : Type} {layout : Layout} {start : α} {set : α → String → Item → Read α}
  {settled : Bool} {bs : List (Tree × Tree)} {t : Tree} {l : Table Tree}

-- ============================================================= members

/-- The members of an object that are fields of a record. -/
def known (layout : Layout) (bs : List (Tree × Tree)) : Table Tree :=
  (Tree.members bs).filter fun e => layout.fields.contains e.1

theorem known_cons (layout : Layout) (name : String) (t : Tree) (bs : List (Tree × Tree)) :
    known layout ((.str name, t) :: bs)
      = if layout.fields.contains name then (name, t) :: known layout bs
        else known layout bs :=
  List.filter_cons

/-- What is found under the name of a field. -/
theorem get?_known {f : String} (hf : f ∈ layout.fields) :
    (known layout bs).get? f = (Tree.members bs).get? f := by
  rw [known]
  induction Tree.members bs with
  | nil => rfl
  | cons e rest ih =>
      obtain ⟨k, t⟩ := e
      rw [List.filter_cons]
      by_cases hk : layout.fields.contains k
      · rw [if_pos hk, Table.get?, Table.get?, ih]
      · have hne : k ≠ f := by
          rintro rfl
          exact hk (List.contains_iff_mem.2 hf)
        rw [if_neg hk, ih, Table.get?, if_neg hne]

/-- Takes the fields out of the bindings of an object. -/
def fieldBindings (layout : Layout) (settled : Bool) (bs : List (Tree × Tree)) :
    Read (List (String × Item)) :=
  bs.filterMapM fun (k, v) => do
    return (← fieldOf? layout k).map fun f => (f, tree settled v)

theorem fieldOf?_str (layout : Layout) (name : String) :
    fieldOf? layout (.str name)
      = pure (if layout.fields.contains name then some name else none) := by
  rw [fieldOf?, find?_name]

/-- The first member becomes a field when its name is known. -/
theorem fieldBindings_cons (name : String) (t : Tree) :
    fieldBindings layout settled ((.str name, t) :: bs) = do
      let rest ← fieldBindings layout settled bs
      return if layout.fields.contains name then (name, tree settled t) :: rest else rest := by
  rw [fieldBindings, List.filterMapM_cons]
  simp only [fieldOf?_str, pure_bind]
  by_cases hk : layout.fields.contains name
  · simp only [if_pos hk, Option.map_some]
    rfl
  · simp only [if_neg hk, Option.map_none, bind_pure]
    rfl

/-- The fields of an object, if all names are texts. -/
theorem fieldBindings_eq (h : ∀ b ∈ bs, ∃ name, b.1 = .str name) :
    fieldBindings layout settled bs
      = pure ((known layout bs).map fun e => (e.1, tree settled e.2)) := by
  induction bs with
  | nil => rfl
  | cons b bs ih =>
      obtain ⟨⟨name, hname⟩, hrest⟩ := List.forall_mem_cons.1 h
      obtain ⟨k, t⟩ := b
      obtain rfl : k = .str name := hname
      rw [fieldBindings_cons, ih hrest, pure_bind, known_cons]
      split <;> rfl

/-- The fields of an object, if it has any: a name that cannot be read is an error. -/
theorem yields_fieldBindings (h : ∀ b ∈ bs, IsKey b.1) :
    Yields (fieldBindings layout settled bs) fun l =>
      l = ((known layout bs).map fun e => (e.1, tree settled e.2))
        ∧ ∀ b ∈ bs, ∃ name, b.1 = .str name := by
  induction bs with
  | nil => exact .pure ⟨rfl, fun b hb => absurd hb List.not_mem_nil⟩
  | cons b bs ih =>
      obtain ⟨hkey, hrest⟩ := List.forall_mem_cons.1 h
      obtain ⟨k, t⟩ := b
      rcases hkey with ⟨name, hname⟩ | hname
      · obtain rfl : k = .str name := hname
        rw [fieldBindings_cons, known_cons]
        refine (ih hrest).bind fun l hl => .pure ⟨?_, ?_⟩
        · rw [hl.1]
          split <;> rfl
        · exact List.forall_mem_cons.2 ⟨⟨name, rfl⟩, hl.2⟩
      · obtain rfl : k = .unreadable := hname
        rw [fieldBindings, List.filterMapM_cons]
        exact .throw _

theorem fields_map : fields layout (tree settled (.map bs)) = do
    return { fields := ← distinct (← fieldBindings layout settled bs) } := rfl

/-- The fields that are given have the names of the known members. -/
theorem keys_fields (layout : Layout) (settled : Bool) (bs : List (Tree × Tree)) :
    ((known layout bs).map fun e => (e.1, tree settled e.2)).map (·.1)
      = (known layout bs).keys := by
  rw [List.map_map]
  rfl

/-- The fields that a tree gives for a record: the known members of an object whose
names are texts, if none is given twice, or those of a list with an item for each of
the first fields. None that is required is missing. -/
inductive GivesFields (layout : Layout) : Tree → Table Tree → Prop
  | object {bs : List (Tree × Tree)} (names : ∀ b ∈ bs, ∃ name, b.1 = .str name)
      (distinct : (known layout bs).keys.Nodup)
      (required : ∀ f ∈ layout.required, f ∈ (known layout bs).keys) :
      GivesFields layout (.map bs) (known layout bs)
  | list {items : List Tree} (length : items.length ≤ layout.fields.length)
      (required : ∀ f ∈ layout.required, f ∈ Table.keys (layout.fields.zip items)) :
      GivesFields layout (.seq items) (layout.fields.zip items)

/-- No field is given twice, if a record has none twice. -/
theorem GivesFields.nodup (h : GivesFields layout t l) (hnames : layout.fields.Nodup) :
    l.keys.Nodup := by
  cases h with
  | object _ distinct _ => exact distinct
  | list _ _ =>
      rw [Table.keys, List.zip_eq_zip_take_min, List.map_fst_zip (by simp)]
      exact hnames.sublist (List.take_sublist ..)

/-- Only fields of the record are given. -/
theorem GivesFields.mem_fields (h : GivesFields layout t l) {e : String × Tree}
    (he : e ∈ l) : e.1 ∈ layout.fields := by
  cases h with
  | object _ _ _ => simpa using (List.mem_filter.1 he).2
  | list _ _ => exact (List.of_mem_zip he).1

theorem GivesFields.required (h : GivesFields layout t l) :
    ∀ f ∈ layout.required, f ∈ l.keys := by
  cases h with
  | object _ _ required => exact required
  | list _ required => exact required

/-- A record looks for the first required field that is not given. -/
theorem find?_required (settled : Bool) (l : Table Tree) :
    (layout.required.find? fun f =>
        !(l.map fun e => (e.1, tree settled e.2)).any fun g => g.1 == f) = none
      ↔ ∀ f ∈ layout.required, f ∈ l.keys := by
  simp [List.find?_eq_none, Table.keys]

/-- The items of a list are fields, in the order in which the record has them. -/
theorem zip_items (items : List Tree) :
    layout.fields.zip (items.map (tree settled))
      = (layout.fields.zip items).map fun e => (e.1, tree settled e.2) := by
  rw [List.zip_map_right]
  rfl

/-- Off a tree that gives the fields of a record, these are taken in one after the
other. -/
theorem record_of_fields (h : GivesFields layout t l) :
    (tree settled t).record layout start set
      = l.foldlM (fun a e => set a e.1 (tree settled e.2)) start := by
  have hrequired := (find?_required settled l).2 h.required
  -- members are bound by name, items by position
  cases h with
  | @object bs names distinct required =>
      have hone : Item.distinct ((known layout bs).map fun e => (e.1, tree settled e.2))
          = pure ((known layout bs).map fun e => (e.1, tree settled e.2)) := by
        rw [Item.distinct, nodup_iff_find?.1 (by rw [keys_fields]; exact distinct)]
      rw [record, fields_map, fieldBindings_eq names, pure_bind, hone, pure_bind, pure_bind]
      dsimp only
      rw [List.foldlM_map, hrequired]
      exact bind_pure _
  | @list items length required =>
      have hfields : fields layout (tree settled (.seq items))
          = pure { fields := layout.fields.zip (items.map (tree settled)),
                   listed := some items.length, surplus := none } := by
        rw [fields]
        dsimp only
        rw [if_pos length]
      rw [record, hfields, pure_bind, zip_items]
      dsimp only
      rw [List.foldlM_map, hrequired]
      exact bind_pure _

/-- What a record reads off an object is read off its members, if these give the
fields of the record. -/
theorem yields_record_map {P : α → Prop} (hkeys : ∀ b ∈ bs, IsKey b.1)
    (hfields : ∀ l, GivesFields layout (.map bs) l →
      Yields (l.foldlM (fun a e => set a e.1 (tree settled e.2)) start) P) :
    Yields ((tree settled (.map bs)).record layout start set) P := by
  rw [record, fields_map]
  refine Yields.bind (P := fun given => given.fields
      = ((known layout bs).map fun e => (e.1, tree settled e.2))
        ∧ (known layout bs).keys.Nodup ∧ ∀ b ∈ bs, ∃ name, b.1 = .str name)
    ?_ fun given hgiven => ?_
  · refine (yields_fieldBindings hkeys).bind fun l hl => ?_
    refine (yields_distinct l).bind fun l' hl' => .pure ?_
    obtain ⟨rfl, hnodup⟩ := hl'
    rw [hl.1, keys_fields] at hnodup
    exact ⟨hl.1, hnodup, hl.2⟩
  · obtain ⟨hgiven, hnodup, hnames⟩ := hgiven
    rw [hgiven, List.foldlM_map]
    by_cases hrequired : ∀ f ∈ layout.required, f ∈ (known layout bs).keys
    · refine (hfields _ (.object hnames hnodup hrequired)).bind fun a ha => ?_
      rw [(find?_required _ _).2 hrequired]
      dsimp only
      split
      · exact .throw _
      · exact .pure ha
    · -- a field is missing, which is only found out in the end
      refine .skip fun a => ?_
      split
      · split <;> exact .throw _
      · rename_i hnone
        exact absurd ((find?_required _ _).1 hnone) hrequired

/-- What a record reads off a list is read off its items, if these give the fields of
the record. -/
theorem yields_record_seq {P : α → Prop} {items : List Tree}
    (hfields : ∀ l, GivesFields layout (.seq items) l →
      Yields (l.foldlM (fun a e => set a e.1 (tree settled e.2)) start) P) :
    Yields ((tree settled (.seq items)).record layout start set) P := by
  rw [record, fields]
  dsimp only
  by_cases hlength : items.length ≤ layout.fields.length
  · rw [if_pos hlength, pure_bind, zip_items]
    dsimp only
    rw [List.foldlM_map]
    by_cases hrequired : ∀ f ∈ layout.required, f ∈ Table.keys (layout.fields.zip items)
    · refine (hfields _ (.list hlength hrequired)).bind fun a ha => ?_
      rw [(find?_required _ _).2 hrequired]
      exact .pure ha
    · refine .skip fun a => ?_
      split
      · exact .throw _
      · rename_i hnone
        exact absurd ((find?_required _ _).1 hnone) hrequired
  · -- items are left over, whatever the first ones are
    rw [if_neg hlength, pure_bind]
    refine .skip fun a => ?_
    split
    · exact .throw _
    · cases settled <;> exact .throw _

/-- Whatever a record is read off gives the fields of the record, and these are taken
in. -/
theorem yields_record_tree {P : α → Prop} (hkeys : Json.Text.Keyed t)
    (hfields : ∀ l, GivesFields layout t l →
      Yields (l.foldlM (fun a e => set a e.1 (tree settled e.2)) start) P) :
    Yields ((tree settled t).record layout start set) P := by
  -- only objects and lists give fields
  cases t with
  | map bs => exact yields_record_map (hkeys bs rfl) hfields
  | seq items => exact yields_record_seq hfields
  | _ =>
      unfold record
      dsimp only [fields]
      exact (yields_unexpected (P := fun _ => False) _ _).bind fun _ h => h.elim

-- ============================================================= success

/-- Fields are taken in as what they stand for, if each of them is. -/
theorem foldlM_copy {copy : String → α → α} {a : α}
    (hset : ∀ a, ∀ e ∈ l, set a e.1 (tree settled e.2) = pure (copy e.1 a)) :
    l.foldlM (fun a e => set a e.1 (tree settled e.2)) a
      = (pure (l.keys.foldl (fun a f => copy f a) a) : Read α) := by
  induction l generalizing a with
  | nil => rfl
  | cons e l ih =>
      rw [List.foldlM_cons, hset a e (List.mem_cons_self ..), pure_bind,
        ih fun a e he => hset a e (List.mem_cons_of_mem _ he)]
      rfl

/-- An object is read as a record, if each of its members is read as what stands in
the record, and no field is given twice or is missing. -/
theorem record_map (copy : String → α → α)
    (hnames : ∀ b ∈ bs, ∃ name, b.1 = .str name)
    (hdistinct : (known layout bs).keys.Nodup)
    (hset : ∀ a, ∀ e ∈ known layout bs, set a e.1 (tree settled e.2) = pure (copy e.1 a))
    (hrequired : ∀ f ∈ layout.required, f ∈ (known layout bs).keys) :
    (tree settled (.map bs)).record layout start set
      = pure ((known layout bs).keys.foldl (fun a f => copy f a) start) := by
  rw [record_of_fields (.object hnames hdistinct hrequired), foldlM_copy hset]

/-- What is taken in under one name only is there if the name is among others. -/
theorem foldl_copy {copy : String → α → α} {part : α → β} {f : String} {b : β}
    (h : ∀ g a, part (copy g a) = if g = f then b else part a) (names : List String) (a : α) :
    part (names.foldl (fun a f => copy f a) a) = if f ∈ names then b else part a := by
  induction names generalizing a with
  | nil => rfl
  | cons g names ih =>
      rw [List.foldl_cons, ih, h]
      by_cases hg : g = f
      · subst hg
        simp
      · simp [hg, Ne.symm hg]

/-- A part is as it is taken in, if it is taken in or was so at the start. -/
theorem foldl_copy_part {copy : String → α → α} {part : α → β} {f : String} {b : β}
    {names : List String} {a : α} (h : ∀ g a, part (copy g a) = if g = f then b else part a)
    (hstart : f ∉ names → part a = b) :
    part (names.foldl (fun a f => copy f a) a) = b := by
  rw [foldl_copy h]
  split
  · rfl
  · next hf => exact hstart hf

-- ============================================================= failure

/-- An object without a required field is no record. -/
theorem yields_record_missing (hkeys : ∀ b ∈ bs, IsKey b.1) {f : String}
    (hrequired : f ∈ layout.required) (habsent : f ∉ (Tree.members bs).keys) :
    Yields ((tree settled (.map bs)).record layout start set) fun _ => False := by
  refine yields_record_tree (fun _ h => Tree.map.inj h ▸ hkeys) fun l hl => absurd ?_ habsent
  cases hl with
  | object _ _ required =>
      obtain ⟨e, he, rfl⟩ := List.mem_map.1 (required f hrequired)
      exact List.mem_map_of_mem (List.mem_filter.1 he).1

/-- What is absent or null is as in a record without fields. -/
theorem yields_record_absent (part : α → β) {f : String} {b : β}
    (hkeys : ∀ b ∈ bs, IsKey b.1) (hf : f ∈ layout.fields)
    (habsent : (Tree.members bs).get? f = none ∨ (Tree.members bs).get? f = some .null)
    (hstart : part start = b)
    (hnull : ∀ a, Yields (set a f (tree settled .null)) fun a' => part a' = b)
    (hother : ∀ a g item, g ≠ f → Yields (set a g item) fun a' => part a' = part a) :
    Yields ((tree settled (.map bs)).record layout start set) fun a => part a = b := by
  refine yields_record_tree (fun _ h => Tree.map.inj h ▸ hkeys) fun l hl => ?_
  cases hl with
  | object _ distinct _ =>
      refine (yields_foldlM (i := tree settled)
        (S := fun w x => w = none ∨ w = some .null → x = b) distinct (fun _ => hstart)
        (fun a t => ?_) hother).mono fun a ha => ha (by rwa [get?_known hf])
      by_cases ht : t = .null
      · subst ht
        exact (hnull a).mono fun a' ha' _ => ha'
      · exact fun n a' n' _ hwritten => absurd hwritten (by simp [ht])

-- ======================================================= exact readers

variable {read : Item → Read α} {R : Tree → α → Prop}

/-- What is read off a tree is related to it, and what is related to a tree is read off
it. -/
def Exact (read : Item → Read α) (R : Tree → α → Prop) : Prop :=
  ∀ settled t, Yields (read (tree settled t)) (R t)
    ∧ ∀ a, R t a → read (tree settled t) = pure a

/-- How a field that may be absent is written: left out or null if it is. -/
def Optional (R : Tree → α → Prop) (written : Option Tree) : Option α → Prop
  | none => written = none ∨ written = some .null
  | some a => ∃ t, written = some t ∧ R t a

/-- A text is read exactly where a text is written. -/
theorem exact_text : Exact text fun t s => t = .str s := by
  intro settled t
  refine ⟨?_, ?_⟩
  · cases t with
    | str s => exact .pure rfl
    | _ =>
        dsimp only [text]
        exact yields_unexpected _ _
  · rintro s rfl
    rfl

/-- A field that may be absent is read exactly if what it may be is, unless null is
that. -/
theorem Exact.optional (h : Exact read R) (hnull : ∀ a, ¬ R .null a) :
    Exact (·.optional read) fun t => Optional R (some t) := by
  intro settled t
  dsimp only
  -- any tree but null is left to the reader
  have hread (ht : t ≠ .null) :
      (tree settled t).optional read = some <$> read (tree settled t) := by
    cases t with
    | null => exact absurd rfl ht
    | _ => rfl
  by_cases ht : t = .null
  · subst ht
    refine ⟨.pure (.inr rfl), fun o ho => ?_⟩
    cases o with
    | none => rfl
    | some a =>
        obtain ⟨_, h, ha⟩ := ho
        cases h
        exact absurd ha (hnull a)
  · refine ⟨?_, fun o ho => ?_⟩
    · rw [hread ht]
      exact (h settled t).1.map fun a ha => ⟨t, rfl, ha⟩
    · rw [hread ht]
      cases o with
      | none => exact ho.elim (fun h => by cases h) fun h => absurd (Option.some.inj h) ht
      | some a =>
          obtain ⟨_, h', ha⟩ := ho
          cases h'
          rw [(h settled t).2 a ha]
          rfl

-- ============================================================ variants

/-- How one of several variants is written: as its word, or as the only key of an
object, whose value is null. A key that is a number counts the variants. -/
inductive VariantAs (known : List (String × α)) : Tree → α → Prop
  | word {s : String} {a : α} : known.lookup s = some a → VariantAs known (.str s) a
  | key {s : String} {a : α} : known.lookup s = some a →
      VariantAs known (.map [(.str s, .null)]) a
  | number {i : Nat} {e : String × α} : known[i]? = some e →
      VariantAs known (.map [(.int i, .null)]) e.2

/-- A tree settles as it is. -/
theorem yields_settle_tree (settled : Bool) (t : Tree) :
    Yields (tree settled t).settle fun t' => t' = t := by
  dsimp only [settle]
  split
  · exact .pure rfl
  · exact .throw _

/-- Whatever is read as a variant is written as one. -/
theorem yields_variant (known : List (String × α)) (settled : Bool) (t : Tree) :
    Yields ((tree settled t).variant false known) (VariantAs known t) := by
  unfold variant
  refine (yields_settle_tree settled t).bind fun t' ht => ?_
  subst ht
  split
  · -- a word
    dsimp only
    split
    · rename_i hlookup
      exact .pure (.word hlookup)
    · exact .throw _
  · -- a key, and what is under it
    rename_i key value
    refine Yields.bind (P := fun a => VariantAs known (.map [(key, .null)]) a) ?_
      fun a ha => ?_
    · dsimp only
      split
      · split
        · rename_i hlookup
          exact .pure (.key hlookup)
        · exact .throw _
      · split
        · rename_i hfound
          split at hfound
          · cases hfound
          · rename_i hnonneg
            obtain ⟨i, rfl⟩ := Int.eq_ofNat_of_zero_le (Int.not_lt.1 hnonneg)
            exact .pure (.number hfound)
        · exact .throw _
      · exact yields_unexpected _ _
    · split
      · exact .pure ha
      · rw [if_neg Bool.false_ne_true]
        exact yields_unexpected _ _
      · exact yields_unexpected _ _
  · exact .throw _
  · exact yields_unexpected _ _

/-- A variant is read wherever it is written. -/
theorem variant_of_variantAs {known : List (String × α)} {a : α} (settled : Bool)
    (h : VariantAs known t a) : (tree settled t).variant false known = pure a := by
  cases h with
  | @word s _ hlookup =>
      have hsettle : (tree settled (.str s)).settle = pure (.str s) := rfl
      simp only [variant, hsettle, pure_bind, hlookup]
  | @key s _ hlookup =>
      have hsettle : (tree settled (.map [(.str s, .null)])).settle
          = pure (.map [(.str s, .null)]) := rfl
      simp only [variant, hsettle, pure_bind, hlookup]
  | @number i e hfound =>
      have hsettle : (tree settled (.map [(.int i, .null)])).settle
          = pure (.map [(.int i, .null)]) := rfl
      have hnonneg : ¬ (i : Int) < 0 := by omega
      simp only [variant, hsettle, pure_bind, if_neg hnonneg, Int.toNat_natCast, hfound]

/-- A variant is read just where it is written. -/
theorem exact_variant (known : List (String × α)) :
    Exact (·.variant false known) (VariantAs known) :=
  fun settled t => ⟨yields_variant known settled t, fun _ => variant_of_variantAs settled⟩

end Item

end ApiForge
