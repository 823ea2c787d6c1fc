import ApiForge.Petstore.Service
import ApiForge.Proofs.Calendar
import ApiForge.Proofs.Document.Record
import ApiForge.Proofs.Json.Printed
/-!
Pets in the bodies of answers.

A body is read back as the pets that it was made of. Its text gives the tree of
their JSON form (`Json.read?_compact`), so what remains is to read pets off trees.
`Pet.Carries` says what the members of an object have to be for a pet, in any order and
among any others: they are read as this pet (`Pet.read_of_carries`), and the members
of its own JSON form are such (`Pet.carries_formMembers`).
-/

namespace ApiForge

open Json.Text (IsKey)
open Text.Utf8 (bytes)

namespace Petstore

open Calendar (Date Timestamp)

-- ================================================ statement vocabulary

/-- What is read of the octets of a JSON text. -/
def decode? {α : Type} (read : Item → Read α) (octets : List UInt8) : Option α :=
  (Json.Text.read? octets).bind fun t =>
    ((read (.tree false t)).run 0).toOption.map (·.1)

/-- The octets of the body of an answer with a JSON value. -/
def bodyOf (status : Nat) (v : Json.Value) : List UInt8 :=
  bytes (Result.response { status, body := some v }).body

/-- How a field that may be absent is written: left out or null if it is. -/
def Stands {α : Type} (text : α → String) (written : Option Tree) : Option α → Prop
  | none => written = none ∨ written = some .null
  | some a => written = some (.str (text a))

namespace Pet

/-- The id is a word of sixty-four bits with a sign. -/
def IsHeld (p : Pet) : Prop := -(Nat.pow 2 63) ≤ p.id ∧ p.id < Nat.pow 2 63

instance (p : Pet) : Decidable p.IsHeld :=
  inferInstanceAs (Decidable (_ ∧ _))

/-- The fields of a pet. -/
def layout : Layout :=
  ⟨"struct Pet", ["born", "id", "name", "status", "tag", "updatedAt"], ["id", "name"]⟩

/-- The names of the fields that are present. -/
def wireNames (p : Pet) : List String :=
  (p.born.map fun _ => "born").toList ++ ["id", "name"]
    ++ (p.status.map fun _ => "status").toList ++ (p.tag.map fun _ => "tag").toList
    ++ (p.updatedAt.map fun _ => "updatedAt").toList

/-- The members of an object are those of a pet. -/
structure Carries (bs : List (Tree × Tree)) (p : Pet) : Prop where
  names : ∀ b ∈ bs, ∃ name, b.1 = .str name
  distinct : (Item.known layout bs).keys.Nodup
  id : (Tree.members bs).get? "id" = some (.int p.id)
  name : (Tree.members bs).get? "name" = some (.str p.name)
  status : Stands Status.name ((Tree.members bs).get? "status") p.status
  tag : Stands (fun t => t) ((Tree.members bs).get? "tag") p.tag
  born : Stands Date.text ((Tree.members bs).get? "born") p.born
  updatedAt : Stands Timestamp.text ((Tree.members bs).get? "updatedAt") p.updatedAt

end Pet

-- ============================================================== leaves

variable {α : Type} {settled : Bool}

/-- A field that may be absent is read as it is written. -/
theorem optional_of_stands {text : α → String} {read : Item → Read α}
    (hread : ∀ a, read (.tree settled (.str (text a))) = pure a) {t : Tree} {o : Option α}
    (h : Stands text (some t) o) : (Item.tree settled t).optional read = pure o := by
  cases o with
  | none =>
      obtain rfl : t = .null := by simpa [Stands] using h
      rfl
  | some a =>
      obtain rfl : t = .str (text a) := Option.some.inj h
      show some <$> read (.tree settled (.str (text a))) = _
      rw [hread a]
      rfl

/-- A field that is neither written nor null is absent. -/
theorem eq_none_of_stands {text : α → String} {o : Option α} (h : Stands text none o) :
    o = none := by
  cases o with
  | none => rfl
  | some a => cases h

/-- What is written in a form is read in this form. -/
theorem readForm_text {expected : String} {ofText? : String → Option α} {text : α → String}
    (h : ∀ a, ofText? (text a) = some a) (a : α) :
    readForm expected ofText? (.tree settled (.str (text a))) = pure a := by
  have htext : (Item.tree settled (.str (text a))).text = pure (text a) := rfl
  rw [readForm, htext, pure_bind, h a]

theorem Status.read_name (x : Status) :
    Status.read (.tree settled (.str x.name)) = pure x := by
  cases x <;> rfl

-- ================================================================ pets

namespace Pet

/-- Takes in one field of a pet. -/
def put (p : Pet) (field : String) (item : Item) : Read Pet := do
  match field with
  | "born" => return { p with born := ← item.optional (readForm "a date" Date.ofText?) }
  | "id" => return { p with id := ← readId item }
  | "name" => return { p with name := ← item.text }
  | "status" => return { p with status := ← item.optional Status.read }
  | "tag" => return { p with tag := ← item.optional Item.text }
  | "updatedAt" =>
    return { p with updatedAt := ← item.optional (readForm "a moment" Timestamp.ofText?) }
  | _ => return p

theorem read_eq (item : Item) :
    Pet.read item = item.record layout { id := 0, name := "" } put := rfl

/-- Takes a field over from another pet. -/
def copy (p : Pet) (field : String) (a : Pet) : Pet :=
  match field with
  | "born" => { a with born := p.born }
  | "id" => { a with id := p.id }
  | "name" => { a with name := p.name }
  | "status" => { a with status := p.status }
  | "tag" => { a with tag := p.tag }
  | "updatedAt" => { a with updatedAt := p.updatedAt }
  | _ => a

/-- Only the field of that name is taken over. -/
theorem copy_parts (p : Pet) (g : String) (a : Pet) :
    (copy p g a).born = (if g = "born" then p.born else a.born)
      ∧ (copy p g a).id = (if g = "id" then p.id else a.id)
      ∧ (copy p g a).name = (if g = "name" then p.name else a.name)
      ∧ (copy p g a).status = (if g = "status" then p.status else a.status)
      ∧ (copy p g a).tag = (if g = "tag" then p.tag else a.tag)
      ∧ (copy p g a).updatedAt = (if g = "updatedAt" then p.updatedAt else a.updatedAt) := by
  unfold copy
  split <;> simp_all

/-- A field of the object that carries a pet is read as that of the pet. -/
theorem put_of_carries {p : Pet} (hp : p.IsHeld) {bs : List (Tree × Tree)}
    (h : Carries bs p) (a : Pet) {e : String × Tree} (he : e ∈ Item.known layout bs) :
    put a e.1 (.tree settled e.2) = pure (copy p e.1 a) := by
  obtain ⟨k, t⟩ := e
  have hk : k ∈ layout.fields := by
    simpa using (List.mem_filter.1 he).2
  have hget : (Tree.members bs).get? k = some t := by
    rw [← Item.get?_known hk]
    exact Table.get?_of_mem h.distinct he
  simp only [layout, List.mem_cons, List.not_mem_nil, or_false] at hk
  -- field by field; optional fields may be absent or null
  rcases hk with rfl | rfl | rfl | rfl | rfl | rfl
  · have hread : (Item.tree settled t).optional (readForm "a date" Date.ofText?)
        = pure p.born :=
      optional_of_stands (readForm_text Date.ofText?_text) (hget ▸ h.born)
    show (do return { a with born := ← _ } : Read Pet) = _
    rw [hread]
    rfl
  · obtain rfl := Option.some.inj (hget.symm.trans h.id)
    have hread : readId (.tree settled (.int p.id)) = pure p.id := if_pos hp
    show (do return { a with id := ← readId _ } : Read Pet) = _
    rw [hread]
    rfl
  · obtain rfl := Option.some.inj (hget.symm.trans h.name)
    rfl
  · have hread : (Item.tree settled t).optional Status.read = pure p.status :=
      optional_of_stands Status.read_name (hget ▸ h.status)
    show (do return { a with status := ← _ } : Read Pet) = _
    rw [hread]
    rfl
  · have hread : (Item.tree settled t).optional Item.text = pure p.tag :=
      optional_of_stands (fun _ => rfl) (hget ▸ h.tag)
    show (do return { a with tag := ← _ } : Read Pet) = _
    rw [hread]
    rfl
  · have hread : (Item.tree settled t).optional (readForm "a moment" Timestamp.ofText?)
        = pure p.updatedAt :=
      optional_of_stands (readForm_text Timestamp.ofText?_text) (hget ▸ h.updatedAt)
    show (do return { a with updatedAt := ← _ } : Read Pet) = _
    rw [hread]
    rfl

/-- The members of a pet are read as the pet. -/
theorem read_of_carries {p : Pet} (hp : p.IsHeld) {bs : List (Tree × Tree)}
    (h : Carries bs p) : Pet.read (.tree settled (.map bs)) = pure p := by
  have hkey (f : String) (hf : f ∈ layout.fields) :
      f ∈ (Item.known layout bs).keys ↔ (Tree.members bs).get? f ≠ none := by
    rw [← Item.get?_known hf, Ne, Table.get?_eq_none_iff, not_not]
  have hrequired : ∀ f ∈ layout.required, f ∈ (Item.known layout bs).keys := by
    intro f hf
    simp only [layout, List.mem_cons, List.not_mem_nil, or_false] at hf
    rcases hf with rfl | rfl
    · exact (hkey "id" (by decide)).2 (by rw [h.id]; exact Option.some_ne_none _)
    · exact (hkey "name" (by decide)).2 (by rw [h.name]; exact Option.some_ne_none _)
  rw [read_eq, Item.record_map (copy p) h.names h.distinct
    (fun a e he => put_of_carries hp h a he) hrequired]
  -- each field is taken over, or it is absent, as it was at the start
  generalize hq : (Item.known layout bs).keys.foldl (fun a f => copy p f a)
    { id := 0, name := "" } = q
  have hpart {β : Type} {part : Pet → β} {f : String}
      (hcopy : ∀ g a, part (copy p g a) = if g = f then part p else part a)
      (hf : f ∈ layout.fields)
      (hstart : (Tree.members bs).get? f = none → part { id := 0, name := "" } = part p) :
      part q = part p := by
    rw [← hq]
    exact Item.foldl_copy_part hcopy fun hgiven => hstart (not_not.1 (mt (hkey f hf).2 hgiven))
  have habsent {β : Type} {text : β → String} {o : Option β} {w : Option Tree}
      (hwritten : Stands text w o) (hw : w = none) : none = o := by
    rw [hw] at hwritten
    exact (eq_none_of_stands hwritten).symm
  have hid : q.id = p.id :=
    hpart (fun g a => (copy_parts p g a).2.1) (by decide) fun hw => by
      rw [h.id] at hw; cases hw
  have hname : q.name = p.name :=
    hpart (fun g a => (copy_parts p g a).2.2.1) (by decide) fun hw => by
      rw [h.name] at hw; cases hw
  have hborn : q.born = p.born :=
    hpart (fun g a => (copy_parts p g a).1) (by decide) (habsent h.born)
  have hstatus : q.status = p.status :=
    hpart (fun g a => (copy_parts p g a).2.2.2.1) (by decide) (habsent h.status)
  have htag : q.tag = p.tag :=
    hpart (fun g a => (copy_parts p g a).2.2.2.2.1) (by decide) (habsent h.tag)
  have hupdated : q.updatedAt = p.updatedAt :=
    hpart (fun g a => (copy_parts p g a).2.2.2.2.2) (by decide) (habsent h.updatedAt)
  obtain ⟨_, _, _, _, _, _⟩ := q
  obtain ⟨_, _, _, _, _, _⟩ := p
  simp only at hid hname hborn hstatus htag hupdated
  rw [hid, hname, hborn, hstatus, htag, hupdated]

-- ========================================================== JSON forms

/-- The members of the JSON form. -/
def formMembers (p : Pet) : List (String × Json.Value) :=
  optionalMember "born" Date.text p.born
    ++ [("id", .int p.id), ("name", .str p.name)]
    ++ optionalMember "status" Status.name p.status
    ++ optionalMember "tag" (fun t => t) p.tag
    ++ optionalMember "updatedAt" Timestamp.text p.updatedAt

theorem keys_optionalMember {α : Type} (key : String) (text : α → String) (o : Option α) :
    (optionalMember key text o).map (·.1) = (o.map fun _ => key).toList := by
  cases o <;> rfl

/-- The names of the members are those of the fields that are present. -/
theorem keys_formMembers (p : Pet) : (formMembers p).map (·.1) = p.wireNames := by
  simp only [formMembers, List.map_append, keys_optionalMember, wireNames]
  rfl

/-- The fields that are present stand in the order of all fields. -/
theorem wireNames_sublist (p : Pet) : p.wireNames.Sublist layout.fields := by
  have hone {α : Type} (o : Option α) (name : String) :
      (o.map fun _ => name).toList.Sublist [name] := by
    cases o with
    | none => exact List.nil_sublist _
    | some a => exact List.Sublist.refl _
  have hfront := (hone p.born "born").append (.refl ["id", "name"])
  exact ((hfront.append (hone p.status "status")).append (hone p.tag "tag")).append
    (hone p.updatedAt "updatedAt")

theorem nodup_wireNames (p : Pet) : p.wireNames.Nodup := by
  have hfields : layout.fields.Nodup := by decide
  exact hfields.sublist (wireNames_sublist p)

/-- The members of a written object are its fields. -/
theorem members_ofFields (fields : List (String × Json.Value)) :
    Tree.members (Tree.ofFields fields)
      = fields.map fun e => (e.1, Tree.ofValue e.2) := by
  rw [Tree.ofFields_eq, Tree.members, List.filterMap_map, ← List.filterMap_eq_map]
  rfl

/-- An optional member is found under its own key only. -/
theorem get?_optionalMember {α : Type} (k key : String) (text : α → String) (o : Option α) :
    Table.get? k (optionalMember key text o)
      = if key = k then o.map fun a => .str (text a) else none := by
  cases o with
  | none => exact (ite_self _).symm
  | some a => rfl

theorem stands_map {α : Type} (text : α → String) (o : Option α) :
    Stands text ((o.map fun a => Json.Value.str (text a)).map Tree.ofValue) o := by
  cases o with
  | none => exact .inl rfl
  | some a => rfl

/-- The members of the JSON form are those of the pet. -/
theorem carries_formMembers (p : Pet) : Carries (Tree.ofFields (formMembers p)) p := by
  have hkeys : (Tree.members (Tree.ofFields (formMembers p))).keys = p.wireNames := by
    rw [members_ofFields, ← keys_formMembers, Table.keys, List.map_map]
    rfl
  have hget (k : String) : (Tree.members (Tree.ofFields (formMembers p))).get? k
      = (Table.get? k (formMembers p)).map Tree.ofValue := by
    rw [members_ofFields]
    exact Table.get?_map Tree.ofValue k (formMembers p)
  -- a key is looked up in all members at once, and then compared with the six names
  have hmember (k : String) : Table.get? k (formMembers p)
      = ((((if "born" = k then p.born.map fun a => Json.Value.str a.text else none).or
          (if "id" = k then some (.int p.id) else if "name" = k then some (.str p.name) else none)).or
          (if "status" = k then p.status.map fun a => .str a.name else none)).or
          (if "tag" = k then p.tag.map fun a => .str a else none)).or
          (if "updatedAt" = k then p.updatedAt.map fun a => .str a.text else none) := by
    simp only [formMembers, Table.get?_append, get?_optionalMember, Table.get?]
  refine ⟨?_, ?_, ?_, ?_, ?_, ?_, ?_, ?_⟩
  · intro b hb
    rw [Tree.ofFields_eq] at hb
    obtain ⟨e, -, rfl⟩ := List.mem_map.1 hb
    exact ⟨e.1, rfl⟩
  · refine (hkeys ▸ nodup_wireNames p : (Tree.members _).keys.Nodup).sublist ?_
    exact List.Sublist.map _ List.filter_sublist
  · rw [hget, hmember]
    simp [Tree.ofValue]
  · rw [hget, hmember]
    simp [Tree.ofValue]
  · rw [hget, hmember]
    simpa using stands_map Status.name p.status
  · rw [hget, hmember]
    simpa using stands_map (fun t => t) p.tag
  · rw [hget, hmember]
    simpa using stands_map Date.text p.born
  · rw [hget, hmember]
    simpa using stands_map Timestamp.text p.updatedAt

/-- The JSON form is read back as the pet. -/
theorem read_value {p : Pet} (hp : p.IsHeld) :
    Pet.read (.tree settled (Tree.ofValue p.value)) = pure p :=
  read_of_carries hp (carries_formMembers p)

/-- The JSON form can be written without loss. -/
theorem exact_value {p : Pet} (hp : p.IsHeld) {depth : Nat} (hdepth : depth < Json.Text.maxDepth) :
    p.value.Exact depth := by
  have happend (d : Nat) (l l' : List (String × Json.Value))
      (hl : Json.Value.ExactFields d l) (hl' : Json.Value.ExactFields d l') :
      Json.Value.ExactFields d (l ++ l') := by
    induction l with
    | nil => exact hl'
    | cons e l ih => exact ⟨hl.1, ih hl.2⟩
  have hoptional {α : Type} (key : String) (text : α → String) (o : Option α) (d : Nat) :
      Json.Value.ExactFields d (optionalMember key text o) := by
    cases o with
    | none => exact trivial
    | some a => exact ⟨trivial, trivial⟩
  have hid : -(Nat.pow 2 63) ≤ p.id ∧ p.id < Nat.pow 2 64 :=
    ⟨hp.1, Int.lt_trans hp.2 (by decide)⟩
  refine ⟨hdepth, ?_⟩
  refine happend _ _ _ (happend _ _ _ (happend _ _ _ (happend _ _ _ ?_ ?_) ?_) ?_) ?_
  · exact hoptional _ _ _ _
  · exact ⟨hid, trivial, trivial⟩
  · exact hoptional _ _ _ _
  · exact hoptional _ _ _ _
  · exact hoptional _ _ _ _

end Pet

-- ============================================================== bodies

theorem bodyOf_eq (status : Nat) (v : Json.Value) : bodyOf status v = bytes v.compact := rfl

/-- What is read of an exact value is read of its body. -/
theorem decode?_bodyOf {read : Item → Read α} {v : Json.Value} {a : α} (status : Nat)
    (hv : v.Exact 0) (hread : read (.tree false (Tree.ofValue v)) = pure a) :
    decode? read (bodyOf status v) = some a := by
  rw [decode?, bodyOf_eq, Json.read?_compact hv, Option.bind_some, hread]
  rfl

/-- What is read of the octets of an object. -/
theorem decode?_eq_some {read : Item → Read α} {octets : List UInt8} {t : Tree} {a : α}
    (ht : Json.Text.read? octets = some t) (h : decode? read octets = some a) :
    ∃ n, (read (.tree false t)).run 0 = .ok (a, n) := by
  rw [decode?, ht, Option.bind_some] at h
  obtain ⟨⟨b, n⟩, hrun, rfl⟩ := Option.map_eq_some_iff.1 h
  refine ⟨n, ?_⟩
  cases hread : (read (.tree false t)).run 0 with
  | error e => rw [hread] at hrun; cases hrun
  | ok r => rw [hread] at hrun; exact congrArg Except.ok (Option.some.inj hrun)

namespace Pet

/-- The fields that may be absent. -/
def optionalNames : List String := ["born", "status", "tag", "updatedAt"]

/-- A field that is taken in changes no other. -/
theorem yields_put (a : Pet) (g : String) (item : Item) :
    Yields (put a g item) fun a' => ∃ p, a' = copy p g a := by
  have hself : copy a g a = a := by
    unfold copy
    split <;> rfl
  unfold put
  split
  · exact .skip fun x => .pure ⟨{ a with born := x }, rfl⟩
  · exact .skip fun x => .pure ⟨{ a with id := x }, rfl⟩
  · exact .skip fun x => .pure ⟨{ a with name := x }, rfl⟩
  · exact .skip fun x => .pure ⟨{ a with status := x }, rfl⟩
  · exact .skip fun x => .pure ⟨{ a with tag := x }, rfl⟩
  · exact .skip fun x => .pure ⟨{ a with updatedAt := x }, rfl⟩
  · exact .pure ⟨a, hself.symm⟩

/-- A field that is absent or null is absent in the pet. -/
theorem yields_absent {bs : List (Tree × Tree)} (hkeys : ∀ b ∈ bs, IsKey b.1) {f : String}
    (hf : f ∈ optionalNames)
    (habsent : (Tree.members bs).get? f = none ∨ (Tree.members bs).get? f = some .null) :
    Yields (Pet.read (.tree settled (.map bs))) fun p => f ∉ p.wireNames := by
  -- only the field itself can set its part of the pet
  have hother {β : Type} {part : Pet → β} {f : String}
      (hcopy : ∀ p g a, part (copy p g a) = if g = f then part p else part a)
      (a : Pet) (g : String) (item : Item) (hg : g ≠ f) :
      Yields (put a g item) fun a' => part a' = part a := by
    refine (yields_put a g item).mono ?_
    rintro a' ⟨p, rfl⟩
    rw [hcopy, if_neg hg]
  simp only [optionalNames, List.mem_cons, List.not_mem_nil, or_false] at hf
  rcases hf with rfl | rfl | rfl | rfl
  · refine (Item.yields_record_absent Pet.born (b := none) hkeys (by decide) habsent
      rfl (fun a => .pure (P := fun p => Pet.born p = none)
        (a := { a with born := none }) rfl)
      (hother fun p g a => (copy_parts p g a).1)).mono ?_
    intro p hp
    simp [wireNames, hp]
  · refine (Item.yields_record_absent Pet.status (b := none) hkeys (by decide) habsent
      rfl (fun a => .pure (P := fun p => Pet.status p = none)
        (a := { a with status := none }) rfl)
      (hother fun p g a => (copy_parts p g a).2.2.2.1)).mono ?_
    intro p hp
    simp [wireNames, hp]
  · refine (Item.yields_record_absent Pet.tag (b := none) hkeys (by decide) habsent
      rfl (fun a => .pure (P := fun p => Pet.tag p = none)
        (a := { a with tag := none }) rfl)
      (hother fun p g a => (copy_parts p g a).2.2.2.2.1)).mono ?_
    intro p hp
    simp [wireNames, hp]
  · refine (Item.yields_record_absent Pet.updatedAt (b := none) hkeys (by decide)
      habsent rfl (fun a => .pure (P := fun p => Pet.updatedAt p = none)
        (a := { a with updatedAt := none }) rfl)
      (hother fun p g a => (copy_parts p g a).2.2.2.2.2)).mono ?_
    intro p hp
    simp [wireNames, hp]

/-- Bodies with a pet or with a list of pets are read back, and the object that is
written for a pet has just the names of the fields that are present. Whatever JSON
text an object stands in: if its members are those of a pet, in any order and among
any others, then this pet is read; if the id or the name is missing, then nothing
is; and what is read has none of the fields that are absent or null. -/
theorem bodies_read_back :
    (∀ (status : Nat) (p : Pet), p.IsHeld →
      decode? Pet.read (bodyOf status p.value) = some p
        ∧ ∃ bs, Json.Text.read? (bodyOf status p.value) = some (.map bs)
          ∧ bs.map (·.1) = p.wireNames.map .str)
    ∧ (∀ (status : Nat) (ps : List Pet), (∀ p ∈ ps, p.IsHeld) →
      decode? (·.listOf Pet.read) (bodyOf status (.arr (ps.map Pet.value))) = some ps)
    ∧ ∀ (octets : List UInt8) (bs : List (Tree × Tree)),
      Json.Text.read? octets = some (.map bs) →
      (∀ p : Pet, p.IsHeld → Carries bs p → decode? Pet.read octets = some p)
        ∧ ("id" ∉ (Tree.members bs).keys ∨ "name" ∉ (Tree.members bs).keys →
          decode? Pet.read octets = none)
        ∧ ∀ p, decode? Pet.read octets = some p → ∀ f ∈ optionalNames,
          (Tree.members bs).get? f = none ∨ (Tree.members bs).get? f = some .null →
            f ∉ p.wireNames := by
  refine ⟨?_, ?_, ?_⟩
  · intro status p hp
    have hexact : p.value.Exact 0 := exact_value hp (by decide)
    refine ⟨decode?_bodyOf status hexact (read_value hp), _, Json.read?_compact hexact, ?_⟩
    rw [← keys_formMembers, Tree.ofFields_eq, List.map_map, List.map_map]
    rfl
  · intro status ps hps
    -- a list is written and read pet by pet
    have hexact (l : List Pet) (hl : ∀ p ∈ l, p.IsHeld) :
        Json.Value.ExactItems 1 (l.map Pet.value) := by
      induction l with
      | nil => exact trivial
      | cons p l ih =>
          obtain ⟨hp, hl⟩ := List.forall_mem_cons.1 hl
          exact ⟨exact_value hp (by decide), ih hl⟩
    have hread (l : List Pet) (hl : ∀ p ∈ l, p.IsHeld) :
        (((l.map Pet.value).map Tree.ofValue).map (Item.tree false)).mapM Pet.read = pure l := by
      induction l with
      | nil => rfl
      | cons p l ih =>
          obtain ⟨hp, hl⟩ := List.forall_mem_cons.1 hl
          rw [List.map_cons, List.map_cons, List.map_cons, List.mapM_cons, read_value hp, ih hl]
          rfl
    refine decode?_bodyOf status ⟨by decide, hexact ps hps⟩ ?_
    show (((Tree.ofItems (ps.map Pet.value)).map (Item.tree false)).mapM Pet.read : Read _) = _
    rw [Tree.ofItems_eq, hread ps hps]
  · intro octets bs hbs
    have hkeys := Json.Text.keys_of_read? hbs
    refine ⟨?_, ?_, ?_⟩
    · intro p hp hcarries
      rw [decode?, hbs, Option.bind_some, read_of_carries hp hcarries]
      rfl
    · intro hmissing
      rw [Option.eq_none_iff_forall_ne_some]
      intro p hdecode
      obtain ⟨n, hrun⟩ := decode?_eq_some hbs hdecode
      rcases hmissing with h | h
      · exact Item.yields_record_missing hkeys (f := "id") (by decide) h 0 p n hrun
      · exact Item.yields_record_missing hkeys (f := "name") (by decide) h 0 p n hrun
    · intro p hdecode f hf habsent
      obtain ⟨n, hrun⟩ := decode?_eq_some hbs hdecode
      exact yields_absent hkeys hf habsent 0 p n hrun

/-- Rex and Tom are read back, Tom only with his id. -/
theorem bodies_read_back_rex :
    let rex : Pet :=
      { id := 7, name := "Rex", status := some .available, born := some { year := 2020, month := 2, day := 29 } }
    let tom : Pet := { id := 1, name := "Tom" }
    decode? Pet.read (bodyOf 200 rex.value) = some rex
      ∧ decode? (·.listOf Pet.read) (bodyOf 200 (.arr ([rex, tom].map Pet.value)))
        = some [rex, tom]
      ∧ decode? Pet.read (bodyOf 200 (.obj [("name", .str "Tom")])) = none
      ∧ decode? Pet.read
          (bodyOf 200 (.obj [("tag", .null), ("name", .str "Tom"), ("id", .int 1)]))
        = some tom := by
  intro rex tom
  obtain ⟨hone, hlist, hobject⟩ := bodies_read_back
  have hrex : rex.IsHeld := by decide
  have htom : tom.IsHeld := by decide
  refine ⟨(hone 200 rex hrex).1, hlist 200 [rex, tom] ?_, ?_, ?_⟩
  · exact List.forall_mem_cons.2 ⟨hrex, List.forall_mem_singleton.2 htom⟩
  · have hread : Json.Text.read? (bodyOf 200 (.obj [("name", .str "Tom")]))
        = some (.map [(.str "name", .str "Tom")]) :=
      Json.read?_compact ⟨by decide, trivial, trivial⟩
    exact (hobject _ _ hread).2.1 (.inl (by decide))
  · have hread : Json.Text.read?
        (bodyOf 200 (.obj [("tag", .null), ("name", .str "Tom"), ("id", .int 1)]))
        = some (.map [(.str "tag", .null), (.str "name", .str "Tom"), (.str "id", .int 1)]) :=
      Json.read?_compact ⟨by decide, trivial, trivial, ⟨by decide, by decide⟩, trivial⟩
    refine (hobject _ _ hread).1 tom htom ⟨?_, by decide, rfl, rfl, .inl rfl, .inr rfl, .inl rfl,
      .inl rfl⟩
    simp

end Pet

end Petstore

end ApiForge
