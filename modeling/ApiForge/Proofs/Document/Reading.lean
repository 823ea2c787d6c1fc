import ApiForge.Document.Read
import ApiForge.Proofs.Outcome
import ApiForge.Proofs.Table
/-!
Reading JSON.

`Item.Reads read R` says that whatever `read` gives of a JSON value is related to
that value by `R`. There is one rule for each way in which the items of a
document hold others: fields that may be left out, lists, tables, entries that
may be pointers, and records. A record takes in one field after the other; the
rule is for one thing that is read off the record in the end. If only one field
can change it, then it is related to what the value gives for that field
(`Reads.field`), and where that stands in an object or in a list makes no
difference.
-/

namespace ApiForge

namespace Json.Value

/-- What a value gives for a field of a record: in an object the member of that
name, in a list the item in the place of the field. -/
def given? (names : List String) (field : String) : Value → Option Value
  | obj members => Table.get? field members
  | arr items => Table.get? field (names.zip items)
  | _ => none

/-- What is given for a field that may be left out: null is nothing. -/
def present? : Option Value → Option Value
  | some null => none
  | o => o

/-- What is given for a table; the later of two members of one name counts. -/
def entries : Option Value → Table Value
  | some (obj members) => Table.ofList members
  | _ => []

/-- What is given for a list. -/
def elements : Option Value → List Value
  | some (arr items) => items
  | _ => []

/-- An object with one `$ref`, which is a text. -/
def isPointer : Value → Bool
  | obj members =>
    match members.filter (·.1 == "$ref") with
    | [(_, str _)] => true
    | _ => false
  | _ => false

end Json.Value

open Json (Value)

-- =============================================================== trees

theorem Tree.ofItems_eq (items : List Value) :
    Tree.ofItems items = items.map Tree.ofValue := by
  induction items with
  | nil => rfl
  | cons v rest ih => rw [Tree.ofItems, ih, List.map_cons]

theorem Tree.ofFields_eq (members : List (String × Value)) :
    Tree.ofFields members
      = members.map fun e => (Tree.str e.1, Tree.ofValue e.2) := by
  induction members with
  | nil => rfl
  | cons e rest ih => rw [Tree.ofFields, ih, List.map_cons]

namespace Item

/-- The item of a JSON value. -/
def ofValue (settled : Bool) (v : Value) : Item :=
  .tree settled (.ofValue v)

variable {α β : Type} {read : Item → Read α} {R : Value → α → Prop}

/-- What is read of a JSON value is related to it. -/
def Reads (read : Item → Read α) (R : Value → α → Prop) : Prop :=
  ∀ settled v, Yields (read (ofValue settled v)) (R v)

/-- Where something else is expected nothing is read. -/
theorem yields_unexpected (item : Item) (expected : String) {P : α → Prop} :
    Yields (item.unexpected expected : Read α) P := by
  unfold unexpected
  dsimp only
  split
  · exact .throw _
  · exact .throw _

-- ========================================================== containers

/-- An option reads its member, if a value is present and not null. -/
theorem Reads.optional (h : Reads read R) :
    Reads (·.optional read) fun v => Option.Rel R (Value.present? (some v)) := by
  intro settled v
  have hsome : Yields (some <$> read (ofValue settled v))
      (Option.Rel R (some v)) :=
    (h settled v).map fun _ => .some
  cases v with
  | null => exact .pure .none
  | _ => exact hsome

/-- The items of a value are the elements of a list. -/
theorem yields_list (settled : Bool) (v : Value) :
    Yields (list (ofValue settled v)) fun l =>
      l = (Value.elements (some v)).map (ofValue settled) := by
  cases v with
  | arr items =>
      refine .pure ?_
      rw [Tree.ofItems_eq, List.map_map]
      rfl
  | _ =>
      dsimp only [ofValue, Tree.ofValue, list]
      exact yields_unexpected _ _

/-- A list reads its elements in order. -/
theorem Reads.listOf (h : Reads read R) :
    Reads (·.listOf read) fun v => List.Forall₂ R (Value.elements (some v)) := by
  intro settled v
  refine (yields_list settled v).bind fun l hl => .forall₂_mapM ?_
  rw [hl, List.forall₂_map_left_iff, List.forall₂_same]
  exact fun v _ => h settled v

/-- The bindings of a value are the members of an object, as written. -/
theorem yields_bindings (settled : Bool) (v : Value) :
    Yields (bindings (ofValue settled v)) fun l =>
      ∃ members, v = .obj members
        ∧ l = members.map fun e => (e.1, ofValue settled e.2) := by
  cases v with
  | obj members =>
      have hbindings : bindings (ofValue settled (.obj members))
          = pure (members.map fun e => (e.1, ofValue settled e.2)) := by
        show List.mapM _ (Tree.ofFields members) = _
        rw [Tree.ofFields_eq, List.mapM_map]
        exact List.mapM_pure
      rw [hbindings]
      exact .pure ⟨members, rfl, rfl⟩
  | _ =>
      dsimp only [ofValue, Tree.ofValue, bindings]
      exact yields_unexpected _ _

/-- A table reads its entries by key. -/
theorem Reads.table (h : Reads read R) :
    Reads (·.table read) fun v => Table.Matched R (Value.entries (some v)) := by
  intro settled v
  refine (yields_bindings settled v).bind fun l hl => ?_
  obtain ⟨members, rfl, rfl⟩ := hl
  refine Yields.bind (P := Table.Matched R members) (.forall₂_mapM ?_)
    fun l hl => .pure hl.ofList
  rw [List.forall₂_map_left_iff, List.forall₂_same]
  exact fun e _ => (h settled e.2).bind fun a ha => .pure ⟨rfl, ha⟩

-- ============================================================== records

variable {layout : Layout} {names : List String}

/-- A name is found among names when it is one of them. -/
theorem find?_name (k : String) :
    names.find? (· == k) = if names.contains k then some k else none := by
  induction names with
  | nil => rfl
  | cons name rest ih =>
      rw [List.find?_cons, List.contains_cons, ih]
      by_cases hk : name = k
      · subst hk
        simp
      · have hne : (name == k) = false := beq_false_of_ne hk
        simp [hne, Ne.symm hk]

/-- The bindings of a map that are fields are the known members of the object. -/
theorem filterMapM_ofFields (layout : Layout) (settled : Bool)
    (members : List (String × Value)) :
    (Tree.ofFields members).filterMapM (fun (k, v) => do
        return (← fieldOf? layout k).map fun f => (f, tree settled v))
      = pure ((members.filter fun e => layout.fields.contains e.1).map
          fun e => (e.1, ofValue settled e.2)) := by
  induction members with
  | nil => rfl
  | cons e rest ih =>
      rw [Tree.ofFields, List.filterMapM_cons, ih]
      simp only [fieldOf?, find?_name, pure_bind]
      by_cases he : layout.fields.contains e.1
      · rw [if_pos he, List.filter_cons, if_pos he]
        rfl
      · rw [if_neg he, List.filter_cons, if_neg he]
        rfl

/-- Fields are distinct when no name stands twice among them. -/
theorem nodup_iff_find? {l : List (String × Item)} :
    (l.map (·.1)).Nodup
      ↔ l.find? (fun f => 1 < (l.filter fun g => g.1 == f.1).length) = none := by
  have hcount (k : String) :
      (l.map (·.1)).count k = (l.filter fun g => g.1 == k).length := by
    rw [List.count, List.countP_map, List.countP_eq_length_filter]
    rfl
  rw [List.nodup_iff_count_le_one, List.find?_eq_none]
  constructor
  · intro h f _
    rw [decide_eq_true_eq, ← hcount]
    exact Nat.not_lt.2 (h f.1)
  · intro h k
    by_cases hk : k ∈ l.map (·.1)
    · obtain ⟨f, hf, rfl⟩ := List.mem_map.1 hk
      have hone := h f hf
      rw [decide_eq_true_eq, ← hcount] at hone
      exact Nat.not_lt.1 hone
    · rw [List.count_eq_zero_of_not_mem hk]
      exact Nat.zero_le _

/-- Fields pass the check for repetitions as they are, if there is none. -/
theorem yields_distinct (l : List (String × Item)) :
    Yields (distinct l) fun l' => l' = l ∧ (l.map (·.1)).Nodup := by
  unfold distinct
  split
  · exact .throw _
  · rename_i hnone
    exact .pure ⟨rfl, nodup_iff_find?.2 hnone⟩

/-- Other members make no difference to what is found for a known name. -/
theorem get?_filter_known {f : String} (hf : f ∈ names)
    (members : List (String × Value)) :
    Table.get? f (members.filter fun e => names.contains e.1)
      = Table.get? f members := by
  induction members with
  | nil => rfl
  | cons e rest ih =>
      obtain ⟨k, v⟩ := e
      by_cases hk : names.contains k
      · rw [List.filter_cons, if_pos hk, Table.get?, Table.get?, ih]
      · have hne : k ≠ f := by
          rintro rfl
          exact hk (List.contains_iff_mem.2 hf)
        rw [List.filter_cons, if_neg hk, Table.get?, if_neg hne, ih]

/-- The fields of a value are what it gives for them. -/
theorem yields_fields (hnames : layout.fields.Nodup) (settled : Bool)
    (v : Value) :
    Yields (fields layout (ofValue settled v)) fun given =>
      ∃ l : Table Value,
        given.fields = l.map (fun e => (e.1, ofValue settled e.2))
          ∧ l.keys.Nodup
          ∧ ∀ f ∈ layout.fields, l.get? f = v.given? layout.fields f := by
  -- the members of an object by name, the items of an array by position
  cases v with
  | obj members =>
      dsimp only [ofValue, Tree.ofValue, fields]
      rw [filterMapM_ofFields, pure_bind]
      refine (yields_distinct _).bind fun l hl => .pure ?_
      obtain ⟨rfl, hnodup⟩ := hl
      rw [List.map_map] at hnodup
      exact ⟨_, rfl, hnodup, fun f hf => get?_filter_known hf members⟩
  | arr items =>
      refine .pure ⟨layout.fields.zip items, ?_, ?_, fun f hf => rfl⟩
      · rw [Tree.ofItems_eq, List.map_map, List.zip_map_right]
        rfl
      · -- the keys are the names of the fields, as far as there are items
        rw [Table.keys, List.zip_eq_zip_take_min, List.map_fst_zip (by simp)]
        exact hnames.sublist (List.take_sublist ..)
  | _ =>
      dsimp only [ofValue, Tree.ofValue, fields]
      exact yields_unexpected _ _

/-- Fields are taken in one after the other. What only one of them can change is
related in the end to what is found for this one. -/
theorem yields_foldlM {γ : Type} {i : γ → Item} {w : α → String → Item → Read α}
    {p : α → β} {S : Option γ → β → Prop} {f : String} {l : Table γ} {a : α}
    (hnodup : l.keys.Nodup) (ha : S none (p a))
    (hown : ∀ a v, Yields (w a f (i v)) fun a' => S (some v) (p a'))
    (hother : ∀ a g x, g ≠ f → Yields (w a g x) fun a' => p a' = p a) :
    Yields (l.foldlM (fun a e => w a e.1 (i e.2)) a) fun a' => S (l.get? f) (p a') := by
  -- fields of other names leave the part as it was
  have hothers (l : Table γ) (a : α) (h : f ∉ l.keys) :
      Yields (l.foldlM (fun a e => w a e.1 (i e.2)) a) fun a' => p a' = p a := by
    induction l generalizing a with
    | nil => exact .pure rfl
    | cons e rest ih =>
        rw [Table.keys, List.map_cons, List.mem_cons, not_or] at h
        rw [List.foldlM_cons]
        refine (hother a e.1 _ (Ne.symm h.1)).bind fun a' ha' => ?_
        rw [← ha']
        exact ih a' h.2
  induction l generalizing a with
  | nil => exact .pure ha
  | cons e rest ih =>
      obtain ⟨g, v⟩ := e
      obtain ⟨hg, hrest⟩ := List.nodup_cons.1 hnodup
      rw [List.foldlM_cons, Table.get?]
      by_cases hgf : g = f
      · subst hgf
        rw [if_pos rfl]
        refine (hown a v).bind fun a' ha' => ?_
        exact fun n b n' hrun => (hothers rest a' hg n b n' hrun) ▸ ha'
      · rw [if_neg hgf]
        refine (hother a g _ hgf).bind fun a' ha' => ih hrest ?_
        rw [ha']
        exact ha

/-- A record takes in the fields that a value gives for it. -/
theorem Reads.field {start : α} {set : α → String → Item → Read α}
    {p : α → β} {S : Option Value → β → Prop} {f : String}
    (hnames : layout.fields.Nodup) (hf : f ∈ layout.fields)
    (hstart : S none (p start))
    (hown : ∀ a settled v, Yields (set a f (ofValue settled v)) fun a' =>
      S (some v) (p a'))
    (hother : ∀ a g item, g ≠ f → Yields (set a g item) fun a' =>
      p a' = p a) :
    Reads (·.record layout start set) fun v a =>
      S (v.given? layout.fields f) (p a) := by
  intro settled v
  refine (yields_fields hnames settled v).bind fun given hgiven => ?_
  obtain ⟨l, hfields, hnodup, hget⟩ := hgiven
  rw [hfields, List.foldlM_map]
  show Yields _ fun a => S (v.given? layout.fields f) (p a)
  rw [← hget f hf]
  refine (yields_foldlM (i := ofValue settled) hnodup hstart
    (fun a v => hown a settled v) hother).bind fun a ha => ?_
  -- what is still missing, or left over, makes the reading fail
  split
  · split
    · exact .throw _
    · exact .throw _
  · split
    · exact .throw _
    · exact .pure ha

end Item

-- ============================================================= choices

namespace Read

variable {α : Type} {P : α → Prop} {a b : Read α}

theorem orElse_pure (x : α) : Read.orElse (pure x) b = pure x := rfl

theorem run_orElse_of_ok {n : Nat} {r : α × Nat} (h : a.run n = .ok r) :
    (Read.orElse a b).run n = .ok r := by
  unfold Read.orElse
  rw [StateT.run, h]

theorem run_orElse_of_error {n : Nat} {e : ReadError}
    (h : a.run n = .error e) : (Read.orElse a b).run n = b.run n := by
  unfold Read.orElse
  rw [StateT.run, h]

/-- Two attempts yield what each of them does. -/
theorem yields_orElse (ha : Yields a P) (hb : Yields b P) :
    Yields (Read.orElse a b) P := by
  intro n x n' hrun
  cases hfirst : a.run n with
  | ok r =>
      rw [run_orElse_of_ok hfirst] at hrun
      cases hrun
      exact ha n x n' hfirst
  | error e =>
      rw [run_orElse_of_error hfirst] at hrun
      exact hb n x n' hrun

end Read

/-- What an object may hold further is a switch, or it is read as a schema. -/
def Schema.readAdditional (inner : Item → Read Schema) (item : Item) :
    Read (Additional Schema) := do
  let t := Item.tree true (← item.settle)
  Read.orElse (Additional.allowed <$> t.flag)
    (Read.orElse (Additional.shaped <$> inner t)
      (.fail (.noForm "AdditionalProperties")))

namespace Item

variable {α : Type} {read : Item → Read α} {R : Value → α → Prop}

/-- A text is read where a text is written. -/
theorem yields_text (settled : Bool) (v : Value) :
    Yields (text (ofValue settled v)) fun s => v = .str s := by
  cases v with
  | str s => exact .pure rfl
  | _ =>
      dsimp only [ofValue, Tree.ofValue, text]
      exact yields_unexpected _ _

/-- A flag is read where a truth value is written. -/
theorem yields_flag (settled : Bool) (v : Value) :
    Yields (flag (ofValue settled v)) fun b => v = .bool b := by
  cases v with
  | bool b => exact .pure rfl
  | _ =>
      dsimp only [ofValue, Tree.ofValue, flag]
      exact yields_unexpected _ _

/-- What is settled of a JSON value is its tree. -/
theorem yields_settle (settled : Bool) (v : Value) :
    Yields (settle (ofValue settled v)) fun t => t = Tree.ofValue v := by
  dsimp only [ofValue, settle]
  split
  · exact .pure rfl
  · exact .throw _

/-- The one field of a pointer. -/
def pointerLayout : Layout :=
  ⟨"struct variant RefOr::Ref", ["$ref"], ["$ref"]⟩

/-- Reads the text of a pointer. -/
def readPointer (item : Item) : Read String :=
  item.record pointerLayout "" fun _ _ item => item.text

/-- The fields of an object that may be a pointer. -/
theorem fields_pointer (members : List (String × Value)) :
    fields pointerLayout (ofValue true (.obj members)) = do
      let l ← distinct ((members.filter (·.1 == "$ref")).map
        fun e => (e.1, ofValue true e.2))
      return { fields := l } := by
  have hname : (fun e : String × Value => pointerLayout.fields.contains e.1)
      = fun e => e.1 == "$ref" := by
    funext e
    rw [pointerLayout, List.contains_cons, List.contains_nil, Bool.or_false]
  dsimp only [ofValue, Tree.ofValue, fields]
  rw [filterMapM_ofFields, pure_bind, hname]
  rfl

/-- Only an object with one `$ref`, which is a text, is read as a pointer. -/
theorem yields_readPointer (members : List (String × Value)) :
    Yields (readPointer (ofValue true (.obj members))) fun _ =>
      (Value.obj members).isPointer = true := by
  unfold readPointer record
  rw [fields_pointer, bind_assoc]
  refine (yields_distinct _).bind fun l hl => ?_
  obtain ⟨rfl, hnodup⟩ := hl
  rw [pure_bind, Value.isPointer]
  -- no other member is called so, and one only, since names are distinct
  have hname (e : String × Value) (he : e ∈ members.filter (·.1 == "$ref")) :
      e.1 = "$ref" := by
    simpa using (List.mem_filter.1 he).2
  cases hfilter : members.filter (·.1 == "$ref") with
  | nil => exact .throw _
  | cons e rest =>
      cases rest with
      | cons e' rest =>
          rw [hfilter] at hnodup hname
          have hne : e.1 ≠ e'.1 := by
            simp at hnodup
            exact hnodup.1.1
          exact absurd ((hname e (by simp)).trans (hname e' (by simp)).symm) hne
      | nil =>
          obtain ⟨k, v⟩ := e
          rw [List.map_cons, List.map_nil, List.foldlM_cons, bind_assoc]
          refine (yields_text true v).bind fun s hs => ?_
          subst hs
          exact fun _ _ _ _ => rfl

/-- A value that is written as a pointer is read as one. -/
theorem readPointer_eq {v : Value} (h : v.isPointer = true) :
    ∃ s, readPointer (ofValue true v) = pure s := by
  unfold Value.isPointer at h
  split at h
  · rename_i members
    split at h
    · rename_i k s hfilter
      refine ⟨s, ?_⟩
      have hk : k = "$ref" := by
        have hmem : (k, Value.str s) ∈ members.filter (·.1 == "$ref") := by
          rw [hfilter]
          exact List.mem_singleton_self _
        simpa using (List.mem_filter.1 hmem).2
      subst hk
      unfold readPointer record
      rw [fields_pointer, hfilter]
      rfl
    · cases h
  · cases h

end Item

/-- An entry is a pointer if it is written so, and else what is read of it. -/
theorem Item.Reads.referable {α : Type} {inner : Item → Read α}
    {R : Value → α → Prop} (h : Item.Reads inner R) :
    Item.Reads (Referable.read inner) fun v r =>
      match r with
      | .pointer _ => v.isPointer = true
      | .inline a => v.isPointer = false ∧ R v a := by
  intro settled v
  refine (Item.yields_settle settled v).bind fun t ht => ?_
  subst ht
  -- a pointer is read at the first attempt, and anything else only at the second
  by_cases hv : v.isPointer = true
  · obtain ⟨s, hs⟩ := Item.readPointer_eq hv
    obtain ⟨members, rfl⟩ : ∃ members, v = .obj members := by
      cases v with
      | obj members => exact ⟨members, rfl⟩
      | _ => cases hv
    have hpointer : (Referable.pointer <$> Item.readPointer
          (Item.ofValue true (.obj members)) : Read (Referable α))
        = pure (.pointer s) := by
      rw [hs, map_pure]
    show Yields (Read.orElse (Referable.pointer <$> Item.readPointer
      (Item.ofValue true (.obj members))) _) _
    rw [hpointer, Read.orElse_pure]
    exact .pure hv
  · refine Read.yields_orElse ?_ (Read.yields_orElse ?_ (.throw _))
    · cases v with
      | obj members =>
          exact (Item.yields_readPointer members).map fun s hs => absurd hs hv
      | _ =>
          dsimp only [Tree.ofValue]
          exact Item.yields_unexpected _ _
    · exact (h true v).map fun a ha => ⟨Bool.eq_false_iff.2 hv, ha⟩

end ApiForge
