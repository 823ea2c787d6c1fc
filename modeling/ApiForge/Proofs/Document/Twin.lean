import ApiForge.Proofs.Document.Reading
/-!
The same value as a tree and as a YAML node.

`Tree.Twin` says that the tree of a JSON value and a node without aliases hold the
same, with scalars that have the type of the tree's leaves. A leaf that JSON cannot
read has any node for a twin where something is written: whoever looks at the leaf has
failed already. `Item.Twin` makes items of both, with as many levels for the node as
the tree has, and there is one rule for each way of looking at items: whatever is read
of the tree is read of the node (`Mirrors`).

There is one exception. A tree that is a list may be read as a record, a node may not.
`Spot` follows which records a document has where, and `Tree.byName` asks that no list
stands in such a place.
-/

namespace ApiForge

open Yaml (Node)

-- ================================================ statement vocabulary

/-- What stands in one place of a document, as far as records go that are not settled
first. -/
inductive Spot where
  | document
  | info
  | path
  | operation
  | components
  | schema
  | tableOf (inner : Spot)
  | listOf (inner : Spot)
  /-- No such record stands here, or anywhere inside. -/
  | free

namespace Spot

/-- Whether a record is read here. -/
def isRecord : Spot → Bool
  | tableOf _ => false
  | listOf _ => false
  | free => false
  | _ => true

/-- What stands at a member of an object. -/
def member : Spot → String → Spot
  | document, "info" => info
  | document, "paths" => tableOf path
  | document, "webhooks" => tableOf path
  | document, "components" => components
  | path, field => if Verb.all.any fun v => v.key == field then operation else free
  | components, "schemas" => tableOf schema
  | schema, "properties" => tableOf schema
  | schema, "items" => schema
  | schema, "allOf" => listOf schema
  | schema, "oneOf" => listOf schema
  | schema, "anyOf" => listOf schema
  | schema, "not" => schema
  | tableOf inner, _ => inner
  | _, _ => free

/-- What stands in a list. -/
def item : Spot → Spot
  | listOf inner => inner
  | _ => free

end Spot

namespace Tree

mutual

/-- Whether all records are given by the names of their fields, none by a list of what
stands in them. -/
def byName (spot : Spot) : Tree → Bool
  | seq items => !spot.isRecord && byNameItems spot.item items
  | map bindings => byNameBindings spot bindings
  | _ => true

/-- Whether the records in all items are given by name. -/
def byNameItems (spot : Spot) : List Tree → Bool
  | [] => true
  | t :: rest => t.byName spot && byNameItems spot rest

/-- Whether the records in all members of an object are given by name. -/
def byNameBindings (spot : Spot) : List (Tree × Tree) → Bool
  | [] => true
  | (str key, t) :: rest => t.byName (spot.member key) && byNameBindings spot rest
  | _ :: rest => byNameBindings spot rest

end

/-- A node where something is written that is not null. -/
inductive Written : Node → Prop
  | word {s : String} (hs : (s.isEmpty || Yaml.isNullWord s) = false) :
      Written (.scalar none s .plain)
  | seq (ns : List Node) : Written (.seq none ns)
  | map (cs : List (Node × Node)) : Written (.map none cs)

/-- A member of an object and a binding with the same key. -/
inductive Bound (S : Tree → Node → Prop) : Tree × Tree → Node × Node → Prop
  | intro (key : String) {t : Tree} {n : Node} :
      S t n → Bound S (.str key, t) (.scalar none key .quoted, n)

/-- A leaf and a plain scalar that has its type. -/
inductive Word : Tree → String → Prop
  | null : Word .null "null"
  | bool (b : Bool) : Word (.bool b) (if b then "true" else "false")
  | int {n : Int} {s : String} (h : Yaml.typed s = .int n) : Word (.int n) s
  | float {x : Numeric.Binary64} {s : String} (h : Yaml.typed s = .float x) : Word (.float x) s

/-- A tree and a node hold the same. -/
inductive Twin : Tree → Node → Prop
  | word {t : Tree} {s : String} (h : Word t s) : Twin t (.scalar none s .plain)
  | string (s : String) : Twin (.str s) (.scalar none s .quoted)
  | seq {ts : List Tree} {ns : List Node} :
      List.Forall₂ Twin ts ns → Twin (.seq ts) (.seq none ns)
  | map {bs : List (Tree × Tree)} {cs : List (Node × Node)} :
      List.Forall₂ (Bound Twin) bs cs → Twin (.map bs) (.map none cs)
  | unreadable {n : Node} (h : Written n) : Twin .unreadable n

end Tree

namespace Item

/-- Two items of which the same is read: they are one, or a tree of JSON text and a node
at the same spot of a document. -/
inductive Twin (spot : Spot) : Item → Item → Prop
  | same (item : Item) : Twin spot item item
  | node {t : Tree} {p : Place} (hnode : t.Twin p.node) (hdepth : t.height ≤ p.depth)
      (hname : t.byName spot = true) : Twin spot (.tree false t) (.place p)

end Item

-- ================================================================ leaves

namespace Tree

variable {t : Tree} {n : Node} {s : String}

/-- A word stands for its tree. -/
theorem Word.typed (h : Word t s) : Yaml.typed s = t := by
  cases h with
  | null => rfl
  | bool b => cases b <;> rfl
  | int h => exact h
  | float h => exact h

/-- Only null is spelt like null. -/
theorem Word.written (h : Word t s) (ht : t ≠ .null) :
    (s.isEmpty || Yaml.isNullWord s) = false := by
  rw [Bool.eq_false_iff]
  intro hs
  have htyped := h.typed
  rw [Yaml.typed, if_pos hs] at htyped
  exact ht htyped.symm

mutual

/-- A tree that is a value can be read. -/
theorem readable_of_value? {t : Tree} {v : Json.Value} (h : t.value? = some v) :
    t.readable = true := by
  match t with
  | .null | .bool _ | .int _ | .minusZero | .float _ | .str _ => rfl
  | .seq items =>
      obtain ⟨vs, hvs, -⟩ := Option.map_eq_some_iff.1 h
      exact readable_of_valuesOf? hvs
  | .map bindings =>
      obtain ⟨fields, hfields, -⟩ := Option.map_eq_some_iff.1 h
      exact readable_of_fieldsOf? hfields
  | .unreadable => cases h

/-- Items that make values can be read. -/
theorem readable_of_valuesOf? {items : List Tree} {vs : List Json.Value}
    (h : valuesOf? items = some vs) : readableItems items = true := by
  match items with
  | [] => rfl
  | t :: rest =>
      rw [valuesOf?] at h
      split at h
      · rename_i v vs hv hvs
        rw [readableItems, readable_of_value? hv, readable_of_valuesOf? hvs]
        rfl
      · cases h

/-- Members that make fields can be read. -/
theorem readable_of_fieldsOf? {bindings : List (Tree × Tree)}
    {fields : List (String × Json.Value)} (h : fieldsOf? bindings = some fields) :
    readableBindings bindings = true := by
  match bindings with
  | [] => rfl
  | (.str key, t) :: rest =>
      rw [fieldsOf?] at h
      split at h
      · rename_i v fields hv hfields
        rw [readableBindings, readable_of_value? hv, readable_of_fieldsOf? hfields]
        rfl
      · cases h

end

mutual

/-- Where no record is read, any list may stand. -/
theorem byName_free (t : Tree) : t.byName .free = true := by
  match t with
  | .null | .bool _ | .int _ | .minusZero | .float _ | .str _ | .unreadable => rfl
  | .seq items => exact byNameItems_free items
  | .map bindings => exact byNameBindings_free bindings

theorem byNameItems_free (items : List Tree) : byNameItems .free items = true := by
  match items with
  | [] => rfl
  | t :: rest => rw [byNameItems, byName_free t, byNameItems_free rest]; rfl

/-- Where anything may stand, members need not be given by name. -/
theorem byNameBindings_free (bindings : List (Tree × Tree)) :
    byNameBindings .free bindings = true := by
  match bindings with
  | [] => rfl
  | (.str key, t) :: rest =>
      have hmember : Spot.free.member key = .free := rfl
      rw [byNameBindings, hmember, byName_free t, byNameBindings_free rest]
      rfl
  | (.null, _) :: rest | (.bool _, _) :: rest | (.int _, _) :: rest
  | (.minusZero, _) :: rest | (.float _, _) :: rest | (.seq _, _) :: rest
  | (.map _, _) :: rest | (.unreadable, _) :: rest => exact byNameBindings_free rest

end

end Tree

namespace Item

open ApiForge.Tree (Bound)

variable {α : Type} {spot : Spot} {i j : Item}

/-- Where no record is read that might be given as a list, the spot does not matter. -/
theorem Twin.free (h : Twin spot i j) : Twin .free i j := by
  cases h with
  | same => exact .same i
  | node hnode hdepth _ => exact .node hnode hdepth (Tree.byName_free _)

variable {targets : List (Nat × Node)} {limit depth : Nat}

variable (targets limit) in
/-- The items of lists that hold the same. -/
theorem twin_items {ts : List Tree} {ns : List Node} (h : List.Forall₂ Tree.Twin ts ns)
    (hdepth : Tree.heightOfItems ts ≤ depth) (hname : Tree.byNameItems spot ts = true) :
    List.Forall₂ (Twin spot) (ts.map (tree false))
      (ns.map fun n => place ⟨targets, limit, depth, n⟩) := by
  induction h with
  | nil => exact .nil
  | cons hnode _ ih =>
      rw [Tree.heightOfItems] at hdepth
      rw [Tree.byNameItems, Bool.and_eq_true] at hname
      exact .cons (.node hnode (by show _ ≤ depth; omega) hname.1)
        (ih (by omega) hname.2)

variable (targets limit) in
/-- The bindings of maps that hold the same have the same keys. -/
theorem twin_bindings {bs : List (Tree × Tree)} {cs : List (Node × Node)}
    (h : List.Forall₂ (Bound Tree.Twin) bs cs) (hdepth : Tree.heightOfBindings bs ≤ depth)
    (hname : Tree.byNameBindings spot bs = true) :
    List.Forall₂ (fun b c => ∃ key t n, b = (.str key, t) ∧ c = (.scalar none key .quoted, n)
      ∧ Twin (spot.member key) (tree false t) (place ⟨targets, limit, depth, n⟩)) bs cs := by
  induction h with
  | nil => exact .nil
  | cons hbound _ ih =>
      cases hbound with
      | intro key hnode =>
          rw [Tree.heightOfBindings] at hdepth
          rw [Tree.byNameBindings, Bool.and_eq_true] at hname
          exact .cons ⟨key, _, _, rfl, rfl, .node hnode (by show _ ≤ depth; omega) hname.1⟩
            (ih (by omega) hname.2)

-- =============================================================== looking

/-- A node that holds the same as a tree is no alias. -/
theorem follow_eq {t : Tree} {n : Node} (h : t.Twin n) :
    Place.follow ⟨targets, limit, depth, n⟩ = pure ⟨targets, limit, depth, n⟩ := by
  cases h with
  | unreadable h => cases h <;> rfl
  | _ => rfl

/-- Aliases of twins lead to twins. -/
theorem Twin.target (h : Twin spot i j) : Mirrors (Twin spot) i.target j.target := by
  cases h with
  | same => exact (Mirrors.refl _).mono fun a b hab => hab ▸ .same a
  | @node t p hnode hdepth hname =>
      obtain ⟨targets, limit, depth, n⟩ := p
      have htarget : (place ⟨targets, limit, depth, n⟩).target
          = pure (place ⟨targets, limit, depth, n⟩) := by
        rw [target, follow_eq hnode]
        rfl
      rw [htarget]
      exact .pure (.node hnode hdepth hname)

/-- Only null is absent. -/
theorem Twin.isAbsent (h : Twin spot i j) : Mirrors Eq i.isAbsent j.isAbsent := by
  cases h with
  | same => exact .refl _
  | @node t p hnode hdepth hname =>
      obtain ⟨targets, limit, depth, n⟩ := p
      cases hnode with
      | word h =>
          cases h with
          | null => exact .pure rfl
          | bool b => exact .pure (by cases b <;> rfl)
          | int h => exact .pure (Tree.Word.written (.int h) nofun).symm
          | float h => exact .pure (Tree.Word.written (.float h) nofun).symm
      | unreadable h =>
          cases h with
          | word h => exact .pure h.symm
          | _ => exact .pure rfl
      | _ => exact .pure rfl

/-- A text is read off a tree that is a text. -/
theorem yields_text_tree (settled : Bool) (t : Tree) :
    Yields (tree settled t).text fun s => t = .str s := by
  cases t with
  | str s => exact .pure rfl
  | _ =>
      dsimp only [text]
      exact yields_unexpected _ _

/-- The text of twins is the same. -/
theorem Twin.text (h : Twin spot i j) : Mirrors Eq i.text j.text := by
  cases h with
  | same => exact .refl _
  | @node t p hnode hdepth hname =>
      obtain ⟨targets, limit, depth, n⟩ := p
      by_cases ht : ∃ s, t = .str s
      · obtain ⟨s, rfl⟩ := ht
        cases hnode with
        | string s => exact .pure rfl
        | word h => cases h
      · exact .of_fails ((yields_text_tree false t).mono fun s hs => ht ⟨s, hs⟩)

/-- A flag is read off a tree that is a truth value. -/
theorem yields_flag_tree (settled : Bool) (t : Tree) :
    Yields (tree settled t).flag fun b => t = .bool b := by
  cases t with
  | bool b => exact .pure rfl
  | _ =>
      dsimp only [flag]
      exact yields_unexpected _ _

/-- The flag of twins is the same. -/
theorem Twin.flag (h : Twin spot i j) : Mirrors Eq i.flag j.flag := by
  cases h with
  | same => exact .refl _
  | @node t p hnode hdepth hname =>
      obtain ⟨targets, limit, depth, n⟩ := p
      by_cases ht : ∃ b, t = .bool b
      · obtain ⟨b, rfl⟩ := ht
        cases hnode with
        | word h =>
            cases h
            cases b <;> exact .pure rfl
      · exact .of_fails ((yields_flag_tree false t).mono fun b hb => ht ⟨b, hb⟩)

/-- There is a level below a list or an object. -/
theorem exists_depth {t : Tree} (ht : 0 < t.height) (hdepth : t.height ≤ depth) :
    ∃ d, depth = d + 1 :=
  Nat.exists_eq_add_of_le' (Nat.le_trans ht hdepth)

/-- Items are read off a tree that is a list. -/
theorem yields_list_tree (settled : Bool) (t : Tree) :
    Yields (tree settled t).list fun _ => ∃ ts, t = .seq ts := by
  cases t with
  | seq ts => exact .pure ⟨ts, rfl⟩
  | _ =>
      dsimp only [list]
      exact yields_unexpected _ _

/-- The items of a list. -/
theorem Twin.list (h : Twin spot i j) :
    Mirrors (List.Forall₂ (Twin spot.item)) i.list j.list := by
  cases h with
  | same =>
      exact (Mirrors.refl _).mono fun l l' hl => hl ▸ List.forall₂_same.2 fun i _ => .same i
  | @node t p hnode hdepth hname =>
      obtain ⟨targets, limit, depth, n⟩ := p
      by_cases ht : ∃ ts, t = .seq ts
      · obtain ⟨ts, rfl⟩ := ht
        cases hnode with
        | seq hitems =>
            obtain ⟨depth, rfl⟩ := exists_depth (t := .seq ts) (Nat.succ_pos _) hdepth
            rw [Tree.byName, Bool.and_eq_true] at hname
            exact .pure (twin_items targets limit hitems (Nat.le_of_succ_le_succ hdepth) hname.2)
        | word h => cases h
      · exact .of_fails ((yields_list_tree false t).mono fun _ h => ht h)

/-- Members are read off a tree that is an object. -/
theorem yields_bindings_tree (settled : Bool) (t : Tree) :
    Yields (tree settled t).bindings fun _ => ∃ bs, t = .map bs := by
  cases t with
  | map bs => exact fun _ _ _ _ => ⟨bs, rfl⟩
  | _ =>
      dsimp only [bindings]
      exact yields_unexpected _ _

/-- The bindings of a map. -/
theorem Twin.bindings (h : Twin spot i j) :
    Mirrors (List.Forall₂ fun e e' => e.1 = e'.1 ∧ Twin (spot.member e.1) e.2 e'.2)
      i.bindings j.bindings := by
  cases h with
  | same =>
      exact (Mirrors.refl _).mono fun l l' hl =>
        hl ▸ List.forall₂_same.2 fun e _ => ⟨rfl, .same e.2⟩
  | @node t p hnode hdepth hname =>
      obtain ⟨targets, limit, depth, n⟩ := p
      by_cases ht : ∃ bs, t = .map bs
      · obtain ⟨bs, rfl⟩ := ht
        cases hnode with
        | map hbindings =>
            obtain ⟨depth, rfl⟩ := exists_depth (t := .map bs) (Nat.succ_pos _) hdepth
            refine .mapM ((twin_bindings targets limit hbindings
              (Nat.le_of_succ_le_succ hdepth) hname).imp ?_)
            rintro b c ⟨key, t, n, rfl, rfl, hmember⟩
            exact .pure ⟨rfl, hmember⟩
        | word h => cases h
      · exact .of_fails ((yields_bindings_tree false t).mono fun _ h => ht h)

theorem tree_word (keys : Bool) {t : Tree} {s : String} (h : Tree.Word t s) :
    Place.tree keys targets limit depth (.scalar none s .plain) = pure t := by
  rw [← h.typed]
  cases depth <;> rw [Place.tree] <;> rfl

theorem tree_string (keys : Bool) (s : String) :
    Place.tree keys targets limit depth (.scalar none s .quoted) = pure (.str s) := by
  cases depth <;> rw [Place.tree] <;> rfl

/-- A list is read item by item, one level further in. -/
theorem tree_seq (keys : Bool) (ns : List Node) :
    Place.tree keys targets limit (depth + 1) (.seq none ns)
      = .seq <$> ns.mapM (Place.tree keys targets limit depth) := by
  rw [Place.tree]
  rfl

theorem tree_map (keys : Bool) (cs : List (Node × Node)) :
    Place.tree keys targets limit (depth + 1) (.map none cs)
      = .map <$> cs.mapM fun c => do
          let k ←
            if keys then Tree.str <$> Place.text "a string" ⟨targets, limit, depth, c.1⟩
            else Place.tree keys targets limit depth c.1
          return (k, ← Place.tree keys targets limit depth c.2) := by
  rw [Place.tree]
  rfl

/-- The tree that is made of a node is its twin, if all of that can be read. The
induction is on how deep the node may nest. -/
theorem tree_of_twin (keys : Bool) {t : Tree} {n : Node} (h : t.Twin n)
    (hdepth : t.height ≤ depth) (hreadable : t.readable = true) :
    Place.tree keys targets limit depth n = pure t := by
  induction depth generalizing t n with
  | zero =>
      cases h with
      | word h => exact tree_word keys h
      | string s => exact tree_string keys s
      | seq h => exact absurd hdepth (Nat.not_succ_le_zero _)
      | map h => exact absurd hdepth (Nat.not_succ_le_zero _)
      | unreadable h => cases hreadable
  | succ depth ih =>
      cases h with
      | word h => exact tree_word keys h
      | string s => exact tree_string keys s
      | @seq ts ns h =>
          replace hdepth : Tree.heightOfItems ts ≤ depth := Nat.le_of_succ_le_succ hdepth
          replace hreadable : Tree.readableItems ts = true := hreadable
          -- the items are no deeper and can be read, so the induction applies to each
          have hitems : ns.mapM (Place.tree keys targets limit depth) = pure ts := by
            induction h with
            | nil => rfl
            | cons hnode _ ihs =>
                rw [Tree.heightOfItems] at hdepth
                rw [Tree.readableItems, Bool.and_eq_true] at hreadable
                rw [List.mapM_cons, ih hnode (by omega) hreadable.1,
                  ihs (by omega) hreadable.2]
                rfl
          rw [tree_seq, hitems]
          rfl
      | @map bs cs h =>
          replace hdepth : Tree.heightOfBindings bs ≤ depth := Nat.le_of_succ_le_succ hdepth
          replace hreadable : Tree.readableBindings bs = true := hreadable
          rw [tree_map]
          refine (congrArg (Tree.map <$> ·) ?_).trans (map_pure ..)
          induction h with
          | nil => rfl
          | cons hbound _ ihs =>
              cases hbound with
              | intro key hnode =>
                  rw [Tree.heightOfBindings] at hdepth
                  simp only [Tree.readableBindings, Bool.and_eq_true] at hreadable
                  rw [List.mapM_cons, ih hnode (by omega) hreadable.1.2,
                    ihs (by omega) hreadable.2, tree_string]
                  cases keys <;> rfl
      | unreadable h => cases hreadable

variable (targets limit) in
theorem settle_of_twin {t : Tree} {n : Node} (h : t.Twin n) (hdepth : t.height ≤ depth)
    (hreadable : t.readable = true) : (place ⟨targets, limit, depth, n⟩).settle = pure t := by
  show (Place.tree false targets limit depth n >>= _) = _
  rw [tree_of_twin false h hdepth hreadable, pure_bind, if_pos hreadable]

/-- Twins settle to the same tree. -/
theorem Twin.settle (h : Twin spot i j) : Mirrors Eq i.settle j.settle := by
  cases h with
  | same => exact .refl _
  | @node t p hnode hdepth hname =>
      obtain ⟨targets, limit, depth, n⟩ := p
      by_cases ht : t.readable = true
      · rw [settle_of_twin targets limit hnode hdepth ht, Item.settle, if_pos ht]
        exact .refl _
      · refine .of_fails ?_
        dsimp only [Item.settle]
        rw [if_neg ht]
        exact .throw _

/-- The value of twins is the same. -/
theorem Twin.value (h : Twin spot i j) : Mirrors Eq i.value j.value := by
  cases h with
  | same => exact .refl _
  | @node t p hnode hdepth hname =>
      obtain ⟨targets, limit, depth, n⟩ := p
      cases hv : t.value? with
      | some v =>
          have hvalue : (place ⟨targets, limit, depth, n⟩).value = (tree false t).value := by
            show (Place.tree true targets limit depth n >>= _) = _
            rw [tree_of_twin true hnode hdepth (Tree.readable_of_value? hv)]
            rfl
          rw [hvalue]
          exact .refl _
      | none =>
          refine .of_fails ?_
          unfold Item.value
          dsimp only
          rw [pure_bind, hv]
          exact .throw _

end Item

end ApiForge
