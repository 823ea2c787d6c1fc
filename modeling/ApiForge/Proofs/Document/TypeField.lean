import ApiForge.Proofs.Document.Alike
import ApiForge.Proofs.Document.Reading
/-!
The types of schemas, as they are written and as they are read.

`TypedAs` compares a written schema with the one that is read: schemas stand at
the same paths on both sides, and each has the names that are written for its
type, where a missing type and null give no names. What is neither a name nor a
list of names is not passed over anywhere, so nothing is read of a value that has
such a type at any schema, however deep that stands (`types_as_written`).

A schema inside another is read by the same reader with less fuel, hence the
induction on the fuel (`reads_readWithin`). Everything around schemas is followed
root by root: `Follows` says that the schemas that stand in no other schema are,
in their order, what is written for them. The readers are composed of few parts,
and there is one rule for each. So it makes no difference whether a reader keeps
its value and tries it again as something else, as it does for pointers and for
further properties.
-/

namespace ApiForge

open Json (Value)

-- ================================================ statement vocabulary

/-- A step from a schema to one that stands in it. -/
inductive Schema.Step where
  | property (name : String)
  | items
  | additional
  | allOf (i : Nat)
  | oneOf (i : Nat)
  | anyOf (i : Nat)
  | negated

namespace Schema

/-- The field into which a step leads. -/
def Step.field : Step → String
  | property _ => "properties"
  | items => "items"
  | additional => "additionalProperties"
  | allOf _ => "allOf"
  | oneOf _ => "oneOf"
  | anyOf _ => "anyOf"
  | negated => "not"

/-- The schema to which a step leads. -/
def step? (s : Schema) : Step → Option Schema
  | .property name => Table.get? name s.properties
  | .items => s.items
  | .additional => additionalSchema? s.additional
  | .allOf i => s.allOf[i]?
  | .oneOf i => s.oneOf[i]?
  | .anyOf i => s.anyOf[i]?
  | .negated => s.negated

/-- The schema at the end of a path. -/
def at? (s : Schema) (path : List Step) : Option Schema :=
  path.foldlM step? s

end Schema

namespace Json.Value

/-- What is given for further properties, unless it is a truth value. -/
def noSwitch? : Value → Option Value
  | bool _ => none
  | v => some v

/-- The schema to which a step leads in what is given for its field. -/
def inField? (o : Option Value) : Schema.Step → Option Value
  | .property name => Table.get? name (entries o)
  | .items => present? o
  | .additional => (present? o).bind noSwitch?
  | .allOf i => (elements o)[i]?
  | .oneOf i => (elements o)[i]?
  | .anyOf i => (elements o)[i]?
  | .negated => present? o

/-- The written schema to which a step leads. -/
def step? (v : Value) (step : Schema.Step) : Option Value :=
  inField? (v.given? Schema.layout.fields step.field) step

/-- The written schema at the end of a path. -/
def at? (v : Value) (path : List Schema.Step) : Option Value :=
  path.foldlM step? v

/-- The names that are given for a type: none if it is left out or null, one if
it is a text, and in order those of a list of texts. Nothing else is a type. -/
def typeNames? : Option Value → Option (List String)
  | none => some []
  | some null => some []
  | some (str name) => some [name]
  | some (arr items) => items.mapM text?
  | some _ => none

/-- The type names of a written schema. -/
def ownTypes? (v : Value) : Option (List String) :=
  typeNames? (v.given? Schema.layout.fields "type")

end Json.Value

/-- Schemas stand at the same paths on both sides, and wherever one stands it has
the names that are written for its type. -/
def TypedAs (v : Value) (s : Schema) : Prop :=
  ∀ path, Option.Rel (fun node q => node.ownTypes? = some q.types)
    (v.at? path) (s.at? path)

-- ======================================================= written roots

/-- The fields of what is written as a record, in the order in which a list gives
them. -/
def MediaType.writtenFields : List String := ["schema"]

def Parameter.writtenFields : List String :=
  ["name", "in", "required", "description", "deprecated", "schema"]

def RequestBody.writtenFields : List String := ["description", "content", "required"]

def Response.writtenFields : List String := ["description", "content"]

def Operation.writtenFields : List String :=
  ["operationId", "summary", "description", "tags", "parameters", "requestBody",
   "responses", "security", "deprecated"]

def PathItem.writtenFields : List String :=
  ["summary", "description", "get", "put", "post", "delete", "options", "head",
   "patch", "trace", "parameters"]

def Components.writtenFields : List String :=
  ["schemas", "responses", "parameters", "requestBodies", "securitySchemes"]

def Document.writtenFields : List String :=
  ["openapi", "info", "paths", "webhooks", "components", "security"]

namespace Json.Value

/-- The roots of what is given for a field that may be left out. -/
def inOptional (inner : Value → List Value) (o : Option Value) : List Value :=
  (present? o).toList.flatMap inner

/-- The roots of what is given for a list. -/
def inList (inner : Value → List Value) (o : Option Value) : List Value :=
  (elements o).flatMap inner

/-- The roots of what is given for a table, in the order of its keys. -/
def inTable (inner : Value → List Value) (o : Option Value) : List Value :=
  (entries o).flatMap fun e => inner e.2

/-- The values in what is given for a table, in the order of its keys. -/
def values (o : Option Value) : List Value :=
  (entries o).map (·.2)

/-- The roots of an entry that is no pointer. -/
def ifInline (inner : Value → List Value) (v : Value) : List Value :=
  if v.isPointer then [] else inner v

def mediaTypeRoots (v : Value) : List Value :=
  (present? (v.given? MediaType.writtenFields "schema")).toList

def parameterRoots (v : Value) : List Value :=
  (present? (v.given? Parameter.writtenFields "schema")).toList

def bodyRoots (v : Value) : List Value :=
  inTable mediaTypeRoots (v.given? RequestBody.writtenFields "content")

def responseRoots (v : Value) : List Value :=
  inTable mediaTypeRoots (v.given? Response.writtenFields "content")

def operationRoots (v : Value) : List Value :=
  inList (ifInline parameterRoots)
      (v.given? Operation.writtenFields "parameters")
    ++ inOptional (ifInline bodyRoots)
      (v.given? Operation.writtenFields "requestBody")
    ++ inTable (ifInline responseRoots)
      (v.given? Operation.writtenFields "responses")

def pathRoots (v : Value) : List Value :=
  inList (ifInline parameterRoots) (v.given? PathItem.writtenFields "parameters")
    ++ Verb.all.flatMap fun verb =>
      inOptional operationRoots (v.given? PathItem.writtenFields verb.key)

def componentsRoots (v : Value) : List Value :=
  values (v.given? Components.writtenFields "schemas")
    ++ inTable (ifInline responseRoots)
      (v.given? Components.writtenFields "responses")
    ++ inTable (ifInline parameterRoots)
      (v.given? Components.writtenFields "parameters")
    ++ inTable (ifInline bodyRoots)
      (v.given? Components.writtenFields "requestBodies")

/-- The schemas of a written document that stand in no other schema. -/
def documentRoots (v : Value) : List Value :=
  inOptional componentsRoots (v.given? Document.writtenFields "components")
    ++ inTable pathRoots (v.given? Document.writtenFields "paths")
    ++ inTable pathRoots (v.given? Document.writtenFields "webhooks")

end Json.Value

-- =============================================================== paths

variable {v : Value} {s : Schema}

/-- A schema has the types of a value when its own are those and each step leads to the
like. -/
theorem TypedAs.of_steps (htypes : v.ownTypes? = some s.types)
    (hsteps : ∀ step, Option.Rel TypedAs (v.step? step) (s.step? step)) :
    TypedAs v s := by
  intro path
  cases path with
  | nil => exact .some htypes
  | cons step rest =>
      have hstep := hsteps step
      unfold Value.at? Schema.at?
      rw [List.foldlM_cons, List.foldlM_cons]
      generalize v.step? step = o at hstep
      generalize s.step? step = o' at hstep
      cases hstep with
      | none => exact .none
      | some h => exact h rest

/-- Where a schema is written, there is one, with the types that are written. -/
theorem TypedAs.exists_at? (h : TypedAs v s) {path : List Schema.Step}
    {node : Value} (hnode : v.at? path = some node) :
    ∃ q, s.at? path = some q ∧ node.ownTypes? = some q.types := by
  have hpath := h path
  rw [hnode] at hpath
  generalize s.at? path = o at hpath
  cases hpath with
  | some htypes => exact ⟨_, rfl, htypes⟩

/-- Lists that are related in order are related at each position. -/
theorem rel_getElem? {α β : Type} {R : α → β → Prop} {l : List α} {l' : List β}
    (h : List.Forall₂ R l l') (i : Nat) : Option.Rel R l[i]? l'[i]? := by
  induction h generalizing i with
  | nil => exact .none
  | cons hab _ ih =>
      cases i with
      | zero => exact .some hab
      | succ i => exact ih i

-- =============================================================== types

namespace Schema

open Item (Reads ofValue)

/-- The name of a type is read where it is written. -/
theorem reads_readTypeName : Reads readTypeName fun v name => v = .str name := by
  intro settled v
  refine (Item.yields_settle settled v).bind fun t ht => ?_
  subst ht
  cases v with
  | str s => exact .pure rfl
  | _ =>
      dsimp only [Tree.ofValue]
      exact Item.yields_unexpected _ _

/-- Values that are texts have these for names. -/
theorem mapM_text?_of_forall₂ {items : List Value} {names : List String}
    (h : List.Forall₂ (fun v name => v = .str name) items names) :
    items.mapM Value.text? = some names := by
  induction h with
  | nil => rfl
  | cons hv _ ih =>
      rw [List.mapM_cons, ih, hv]
      rfl

/-- The types of a schema are read as one name or as a list of names. -/
theorem reads_readTypes : Reads readTypes fun v names =>
    Value.typeNames? (some v) = some names := by
  intro settled v
  cases v with
  | null => exact .pure rfl
  | str s => exact .pure rfl
  | arr items =>
      refine Yields.mono (reads_readTypeName.listOf settled (.arr items))
        fun names h => ?_
      exact mapM_text?_of_forall₂ h
  | _ =>
      dsimp only [ofValue, Tree.ofValue, readTypes, readTypes.ofLeaf]
      exact Item.yields_unexpected _ _

/-- The types of a schema are those that are written in its type field. -/
theorem reads_types (fuel : Nat) : Reads (readWithin fuel) fun v s =>
    v.ownTypes? = some s.types := by
  cases fuel with
  | zero => exact fun _ _ => .throw _
  | succ fuel =>
      intro settled v
      rw [readWithin]
      refine Reads.field (f := "type") (p := types)
        (S := fun o names => Value.typeNames? o = some names)
        (by decide) (by decide) rfl ?_ ?_ settled v
      · intro s settled v
        exact (reads_readTypes settled v).bind fun names h => .pure h
      · intro s g item hg
        split <;> first
          | exact absurd rfl hg
          | exact .pure rfl
          | exact .skip fun _ => .pure rfl

/-- A setting for further properties has the types of its schema. -/
theorem reads_readAdditional {inner : Item → Read Schema}
    (h : Reads inner TypedAs) : Reads (readAdditional inner) fun v a =>
      Option.Rel TypedAs v.noSwitch? (additionalSchema? (some a)) := by
  intro settled v
  refine (Item.yields_settle settled v).bind fun t ht => ?_
  subst ht
  cases v with
  | bool b => exact .pure .none
  | _ =>
      refine Read.yields_orElse ?_ (Read.yields_orElse ?_ (.throw _))
      · exact (Item.yields_flag true _).map nofun
      · exact (h true _).map fun s hs => .some hs

/-- What is read for further properties, if anything is, holds the schema that is
written there. -/
theorem rel_additionalSchema? {given : Option Value}
    {o : Option (Additional Schema)}
    (h : Option.Rel (fun v a => Option.Rel TypedAs v.noSwitch?
      (additionalSchema? (some a))) given o) :
    Option.Rel TypedAs (given.bind Value.noSwitch?) (additionalSchema? o) := by
  cases h with
  | none => exact .none
  | some h => exact h

/-- Each step goes through a field of the schema. -/
theorem Step.field_mem (step : Step) : step.field ∈ layout.fields := by
  have hall : ∀ f ∈ ["properties", "items", "additionalProperties", "allOf",
      "oneOf", "anyOf", "not"], f ∈ layout.fields := by
    decide
  cases step <;> exact hall _ (by simp [field])

/-- One step further in a schema has the types that are written there. -/
theorem reads_step {fuel : Nat} (h : Reads (readWithin fuel) TypedAs)
    (step : Step) : Reads (readWithin (fuel + 1)) fun v s =>
      Option.Rel TypedAs (v.step? step) (s.step? step) := by
  intro settled v
  rw [readWithin]
  refine Reads.field (f := step.field) (p := fun s : Schema => s.step? step)
    (S := fun o r => Option.Rel TypedAs (Value.inField? o step) r)
    (by decide) step.field_mem ?_ ?_ ?_ settled v
  · cases step <;> exact .none
  · intro s settled v
    -- a property by name, a member of a list by position, the others directly
    cases step with
    | property name =>
        exact (h.table settled v).bind fun t ht => .pure (ht.get? name)
    | items => exact (h.optional settled v).bind fun o ho => .pure ho
    | additional =>
        exact ((reads_readAdditional h).optional settled v).bind
          fun o ho => .pure (rel_additionalSchema? ho)
    | allOf i =>
        exact (h.listOf settled v).bind fun l hl => .pure (rel_getElem? hl i)
    | oneOf i =>
        exact (h.listOf settled v).bind fun l hl => .pure (rel_getElem? hl i)
    | anyOf i =>
        exact (h.listOf settled v).bind fun l hl => .pure (rel_getElem? hl i)
    | negated => exact (h.optional settled v).bind fun o ho => .pure ho
  · intro s g item hg
    split <;> first
      | exact .pure rfl
      | refine .skip fun _ => .pure ?_
        cases step <;> first
          | rfl
          | exact absurd rfl hg

/-- Whatever the fuel, a schema is read with the types that are written, at every
path. -/
theorem reads_readWithin (fuel : Nat) : Reads (readWithin fuel) TypedAs := by
  induction fuel with
  | zero => exact fun _ _ => .throw _
  | succ fuel ih =>
      intro settled v n s n' hrun
      exact .of_steps (reads_types (fuel + 1) settled v n s n' hrun)
        fun step => reads_step ih step settled v n s n' hrun

/-- A schema is read with the types that are written, at every path. -/
theorem reads_read : Reads read TypedAs :=
  fun settled v => reads_readWithin _ settled v

end Schema

-- =============================================================== roots

section Roots

open Item (Reads ofValue)

variable {α : Type} {read : Item → Read α} {written : Value → List Value}
  {roots : α → List Schema}

/-- What is read of a value has the roots that are written, one for one. -/
def Follows (read : Item → Read α) (written : Value → List Value)
    (roots : α → List Schema) : Prop :=
  Reads read fun v a => List.Forall₂ TypedAs (written v) (roots a)

/-- The schemas of an option follow those that are written. -/
theorem Follows.optional (h : Follows read written roots) :
    Reads (·.optional read) fun v o =>
      List.Forall₂ TypedAs (Value.inOptional written (some v))
        (o.toList.flatMap roots) :=
  fun settled v => (Reads.optional h settled v).mono fun _ ho =>
    List.rel_flatMap (forall₂_toList ho) fun _ _ hr => hr

/-- The schemas of a list follow those that are written, in order. -/
theorem Follows.listOf (h : Follows read written roots) :
    Reads (·.listOf read) fun v l =>
      List.Forall₂ TypedAs (Value.inList written (some v)) (l.flatMap roots) :=
  fun settled v => (Reads.listOf h settled v).mono fun _ hl =>
    List.rel_flatMap hl fun _ _ hr => hr

/-- The schemas of a table follow those that are written, in order. -/
theorem Follows.table (h : Follows read written roots) :
    Reads (·.table read) fun v t =>
      List.Forall₂ TypedAs (Value.inTable written (some v))
        (t.flatMap fun e => roots e.2) :=
  fun settled v => (Reads.table h settled v).mono fun _ ht =>
    Table.Matched.flatMap (fun _ _ hr => hr) ht

/-- The schemas of a table that may be missing follow those that are written. -/
theorem Follows.optionalTable (h : Follows read written roots) :
    Reads (·.optional (·.table read)) fun v o =>
      List.Forall₂ TypedAs (Value.inTable written (some v))
        ((o.getD []).flatMap fun e => roots e.2) := by
  intro settled v
  refine (Reads.optional h.table settled v).mono fun o ho => ?_
  cases v with
  | null =>
      cases ho
      exact .nil
  | _ =>
      cases ho with
      | some ht => exact ht

/-- A reference has no schemas, and what stands in place has those that are written. -/
theorem Follows.referable (h : Follows read written roots) :
    Follows (Referable.read read) (Value.ifInline written) (·.roots roots) := by
  intro settled v
  refine (Reads.referable h settled v).mono fun r hr => ?_
  unfold Value.ifInline
  cases r with
  | pointer _ =>
      rw [if_pos hr]
      exact .nil
  | inline a =>
      obtain ⟨hv, ha⟩ := hr
      rw [if_neg (Bool.eq_false_iff.1 hv)]
      exact ha

/-- Reading a record follows what is written for one field, if only that field
changes the roots in question. Whether another does is seen by looking at each
field in turn. -/
theorem follows_field {layout : Layout} {start : α}
    {set : α → String → Item → Read α} {W : Option Value → List Value}
    {f : String} (hnames : layout.fields.Nodup) (hf : f ∈ layout.fields)
    (hstart : List.Forall₂ TypedAs (W none) (roots start))
    (hown : ∀ a settled v, Yields (set a f (ofValue settled v)) fun a' =>
      List.Forall₂ TypedAs (W (some v)) (roots a'))
    (hother : ∀ a g item, g ≠ f → Yields (set a g item) fun a' =>
      roots a' = roots a) :
    Follows (·.record layout start set)
      (fun v => W (v.given? layout.fields f)) roots :=
  Reads.field (p := roots) (S := fun o r => List.Forall₂ TypedAs (W o) r)
    hnames hf hstart hown hother

/-- What is read follows one list of roots and another behind it. -/
theorem Follows.append {written' : Value → List Value} {roots' : α → List Schema}
    (h : Follows read written roots) (h' : Follows read written' roots') :
    Follows read (fun v => written v ++ written' v)
      fun a => roots a ++ roots' a :=
  fun settled v n a n' hrun =>
    List.rel_append (h settled v n a n' hrun) (h' settled v n a n' hrun)

/-- The schema of a media type follows the one that is written. -/
theorem follows_mediaType : Follows MediaType.read Value.mediaTypeRoots
    fun m => m.schema.toList := by
  refine follows_field (f := "schema")
    (W := fun o => (Value.present? o).toList) (by decide) (by decide) .nil ?_ ?_
  · intro m settled v
    exact (Schema.reads_read.optional settled v).bind
      fun o ho => .pure (forall₂_toList ho)
  · intro m g item hg
    split <;> first
      | exact absurd rfl hg
      | exact .pure rfl

/-- The schema of a parameter follows the one that is written. -/
theorem follows_parameter : Follows Parameter.read Value.parameterRoots
    fun p => p.schema.toList := by
  refine follows_field (f := "schema")
    (W := fun o => (Value.present? o).toList) (by decide) (by decide) .nil ?_ ?_
  · intro p settled v
    exact (Schema.reads_read.optional settled v).bind
      fun o ho => .pure (forall₂_toList ho)
  · intro p g item hg
    split <;> first
      | exact absurd rfl hg
      | exact .pure rfl
      | exact .skip fun _ => .pure rfl

/-- The schemas of a body follow those that are written. -/
theorem follows_body : Follows RequestBody.read Value.bodyRoots
    fun b => Content.roots b.content := by
  refine follows_field (f := "content")
    (W := Value.inTable Value.mediaTypeRoots) (by decide) (by decide) .nil ?_ ?_
  · intro b settled v
    exact (follows_mediaType.table settled v).bind fun t ht => .pure ht
  · intro b g item hg
    split <;> first
      | exact absurd rfl hg
      | exact .pure rfl
      | exact .skip fun _ => .pure rfl

/-- The schemas of a response follow those that are written. -/
theorem follows_response : Follows Response.read Value.responseRoots
    fun r => Content.roots r.content := by
  refine follows_field (f := "content")
    (W := Value.inTable Value.mediaTypeRoots) (by decide) (by decide) .nil ?_ ?_
  · intro r settled v
    exact (follows_mediaType.table settled v).bind fun t ht => .pure ht
  · intro r g item hg
    split <;> first
      | exact absurd rfl hg
      | exact .pure rfl
      | exact .skip fun _ => .pure rfl

/-- The schemas of an operation follow those of its three fields. -/
theorem follows_operation :
    Follows Operation.read Value.operationRoots Operation.roots := by
  refine (Follows.append
    (follows_field (f := "parameters")
      (W := Value.inList (Value.ifInline Value.parameterRoots))
      (by decide) (by decide) .nil ?parameters ?_)
    (follows_field (f := "requestBody")
      (W := Value.inOptional (Value.ifInline Value.bodyRoots))
      (by decide) (by decide) .nil ?body ?_)).append
    (follows_field (f := "responses")
      (W := Value.inTable (Value.ifInline Value.responseRoots))
      (by decide) (by decide) .nil ?responses ?_)
  case parameters =>
    intro o settled v
    exact (follows_parameter.referable.listOf settled v).bind
      fun l hl => .pure hl
  case body =>
    intro o settled v
    exact (follows_body.referable.optional settled v).bind
      fun body hbody => .pure hbody
  case responses =>
    intro o settled v
    exact (follows_response.referable.table settled v).bind
      fun t ht => .pure ht
  -- no other field touches these
  all_goals
    intro o g item hg
    split <;> first
      | exact absurd rfl hg
      | exact .pure rfl
      | exact .skip fun _ => .pure rfl

/-- The operation of a verb has the roots that are written under its key. -/
theorem follows_verb (verb : Verb) : Follows PathItem.read
    (fun v => Value.inOptional Value.operationRoots
      (v.given? PathItem.writtenFields verb.key))
    fun p => (p.operation verb).toList.flatMap Operation.roots := by
  refine follows_field (f := verb.key)
    (W := Value.inOptional Value.operationRoots)
    (by decide) (by cases verb <;> decide) .nil ?_ ?_
  · intro p settled v
    cases verb <;>
      exact (follows_operation.optional settled v).bind fun op hop => .pure hop
  · intro p g item hg
    split
    case h_4 =>
      split
      · rename_i verb' hverb'
        have hkey : verb'.key = g := by simpa using List.find?_some hverb'
        have hne : verb ≠ verb' := fun heq => hg (heq ▸ hkey.symm)
        refine .skip fun op => .pure ?_
        simp only [PathItem.withOperation, if_neg hne]
      · exact .pure rfl
    all_goals exact .skip fun _ => .pure rfl

/-- The operations of a path are listed in the order of the verbs. -/
theorem flatMap_operations (p : PathItem) (verbs : List Verb) :
    (verbs.filterMap fun v => (p.operation v).map (v, ·)).flatMap (·.2.roots)
      = verbs.flatMap fun v => (p.operation v).toList.flatMap Operation.roots := by
  induction verbs with
  | nil => rfl
  | cons v rest ih =>
      rw [List.flatMap_cons, List.filterMap_cons, ← ih]
      cases p.operation v with
      | none => rfl
      | some o => simp

/-- The schemas of an item follow those of its parameters and of each operation. -/
theorem follows_path : Follows PathItem.read Value.pathRoots PathItem.roots := by
  refine Follows.append ?_ ?_
  · refine follows_field (f := "parameters")
      (W := Value.inList (Value.ifInline Value.parameterRoots))
      (by decide) (by decide) .nil ?_ ?_
    · intro p settled v
      exact (follows_parameter.referable.listOf settled v).bind
        fun l hl => .pure hl
    · intro p g item hg
      split
      case h_4 =>
        split
        · exact .skip fun _ => .pure rfl
        · exact .pure rfl
      all_goals first
        | exact absurd rfl hg
        | exact .skip fun _ => .pure rfl
  · intro settled v n p n' hrun
    show List.Forall₂ TypedAs _ (p.operations.flatMap (·.2.roots))
    rw [PathItem.operations, flatMap_operations]
    refine List.rel_flatMap (R := Eq) (List.forall₂_same.2 fun _ _ => rfl)
      fun verb _ heq => ?_
    subst heq
    exact follows_verb verb settled v n p n' hrun

/-- The schemas of components follow those of their four tables. -/
theorem follows_components :
    Follows Components.read Value.componentsRoots Components.roots := by
  refine ((Follows.append
    (follows_field (f := "schemas") (W := Value.values)
      (by decide) (by decide) .nil ?schemas ?_)
    (follows_field (f := "responses")
      (W := Value.inTable (Value.ifInline Value.responseRoots))
      (by decide) (by decide) .nil ?responses ?_)).append
    (follows_field (f := "parameters")
      (W := Value.inTable (Value.ifInline Value.parameterRoots))
      (by decide) (by decide) .nil ?parameters ?_)).append
    (follows_field (f := "requestBodies")
      (W := Value.inTable (Value.ifInline Value.bodyRoots))
      (by decide) (by decide) .nil ?bodies ?_)
  case schemas =>
    intro c settled v
    exact (Schema.reads_read.table settled v).bind
      fun t ht => .pure (Table.Matched.values ht)
  case responses =>
    intro c settled v
    exact (follows_response.referable.table settled v).bind
      fun t ht => .pure ht
  case parameters =>
    intro c settled v
    exact (follows_parameter.referable.table settled v).bind
      fun t ht => .pure ht
  case bodies =>
    intro c settled v
    exact (follows_body.referable.table settled v).bind
      fun t ht => .pure ht
  -- no other field touches these
  all_goals
    intro c g item hg
    split <;> first
      | exact absurd rfl hg
      | exact .pure rfl
      | exact .skip fun _ => .pure rfl

/-- The schemas of a document follow those of its components, paths and webhooks. -/
theorem follows_document :
    Follows Document.read Value.documentRoots Document.roots := by
  refine (Follows.append
    (follows_field (f := "components")
      (W := Value.inOptional Value.componentsRoots)
      (by decide) (by decide) .nil ?components ?_)
    (follows_field (f := "paths") (W := Value.inTable Value.pathRoots)
      (by decide) (by decide) .nil ?paths ?_)).append
    (follows_field (f := "webhooks") (W := Value.inTable Value.pathRoots)
      (by decide) (by decide) .nil ?webhooks ?_)
  case components =>
    intro d settled v
    exact (follows_components.optional settled v).bind
      fun c hc => .pure hc
  case paths =>
    intro d settled v
    exact (follows_path.optionalTable settled v).bind
      fun t ht => .pure ht
  case webhooks =>
    intro d settled v
    exact (follows_path.table settled v).bind fun t ht => .pure ht
  -- no other field touches these
  all_goals
    intro d g item hg
    split <;> first
      | exact absurd rfl hg
      | exact .pure rfl
      | exact .skip fun _ => .pure rfl

end Roots

-- ========================================================= main result

/-- What is said of the types in a value that a step reads. `written` and `roots`
list the schemas that stand in no other schema, as they are written and as they
are read; `settled` says whether the value was settled before. -/
structure KeepsTypes {α : Type} (read : Item → Read α)
    (written : Value → List Value) (roots : α → List Schema) : Prop where
  /-- What is read has the written types, at every schema. -/
  kept : ∀ settled v n a n',
    (read (.tree settled (.ofValue v))).run n = .ok (a, n') →
      List.Forall₂ TypedAs (written v) (roots a)
  /-- Nothing is read if something else than a type stands at any schema. -/
  refused : ∀ settled v n,
    (∃ root ∈ written v, ∃ path node,
      root.at? path = some node ∧ node.ownTypes? = none) →
    ∃ e, (read (.tree settled (.ofValue v))).run n = .error e

/-- What follows the written schemas keeps the written types, and refuses the others. -/
theorem Follows.keepsTypes {α : Type} {read : Item → Read α}
    {written : Value → List Value} {roots : α → List Schema}
    (h : Follows read written roots) : KeepsTypes read written roots where
  kept := h
  refused := by
    intro settled v n hmalformed
    obtain ⟨root, hroot, path, node, hnode, hnone⟩ := hmalformed
    cases hrun : (read (.tree settled (.ofValue v))).run n with
    | error e => exact ⟨e, rfl⟩
    | ok r =>
        obtain ⟨s, -, hs⟩ :=
          exists_of_forall₂ (h settled v n r.1 r.2 hrun) root hroot
        obtain ⟨q, -, htypes⟩ := hs.exists_at? hnode
        rw [hnone] at htypes
        cases htypes

/-- Whatever is read from JSON keeps the types that are written in it: schemas,
parameters, request bodies and answers, the last three also where they might be
pointers, and documents. -/
theorem types_as_written :
    KeepsTypes Schema.read ([·]) ([·])
      ∧ KeepsTypes Parameter.read Value.parameterRoots (·.schema.toList)
      ∧ KeepsTypes RequestBody.read Value.bodyRoots (Content.roots ·.content)
      ∧ KeepsTypes Response.read Value.responseRoots (Content.roots ·.content)
      ∧ KeepsTypes (Referable.read Parameter.read)
        (Value.ifInline Value.parameterRoots) Parameter.roots
      ∧ KeepsTypes (Referable.read RequestBody.read)
        (Value.ifInline Value.bodyRoots) RequestBody.roots
      ∧ KeepsTypes (Referable.read Response.read)
        (Value.ifInline Value.responseRoots) Response.roots
      ∧ KeepsTypes Document.read Value.documentRoots Document.roots := by
  have hschema : Follows Schema.read ([·]) ([·]) :=
    fun settled v => (Schema.reads_read settled v).mono fun _ h => .cons h .nil
  exact ⟨hschema.keepsTypes, follows_parameter.keepsTypes,
    follows_body.keepsTypes, follows_response.keepsTypes,
    follows_parameter.referable.keepsTypes, follows_body.referable.keepsTypes,
    follows_response.referable.keepsTypes, follows_document.keepsTypes⟩

-- ============================================================ a kennel

/-- The schema of a dog, or of none; its age is a number. -/
def dogValue : Value :=
  .obj [("properties", .obj [("age", .obj [("type", .str "integer")])]),
    ("type", .arr [.str "object", .str "null"])]

/-- A document with this schema. -/
def kennelValue : Value :=
  .obj [("components", .obj [("schemas", .obj [("Dog", dogValue)])])]

/-- An answer in which a number stands for the type of any further property. -/
def weighedValue : Value :=
  .obj [("content", .obj [("application/json", .obj [("schema",
    .obj [("additionalProperties", .obj [("type", .int 5)])])])])]

/-- The document is read with the types of the dog and of its age, and the answer
is not read. -/
theorem types_as_written_kennel :
    (∃ d n s, (Document.read (.tree false (.ofValue kennelValue))).run 0
        = .ok (d, n)
      ∧ d.roots = [s] ∧ s.types = ["object", "null"]
      ∧ ∃ q, s.at? [.property "age"] = some q ∧ q.types = ["integer"])
    ∧ ∃ e, (Response.read (.tree false (.ofValue weighedValue))).run 0
      = .error e := by
  obtain ⟨-, -, -, hresponse, -, -, -, hdocument⟩ := types_as_written
  constructor
  -- that the document is read is evaluated; what is read follows from the theorem
  · have hread : ((Document.read (.tree false (.ofValue kennelValue))).run
        0).isOk := by
      decide +kernel
    cases hrun : (Document.read (.tree false (.ofValue kennelValue))).run 0 with
    | error e =>
        rw [hrun] at hread
        cases hread
    | ok r =>
        have hkept := hdocument.kept false kennelValue 0 r.1 r.2 hrun
        have hwritten : kennelValue.documentRoots = [dogValue] := rfl
        rw [hwritten] at hkept
        generalize hroots : r.1.roots = roots at hkept
        cases hkept with
        | @cons _ s _ _ hs hrest =>
            cases hrest
            have hself : dogValue.at? [] = some dogValue := rfl
            have hinner : dogValue.at? [.property "age"]
                = some (.obj [("type", .str "integer")]) := rfl
            obtain ⟨_, hroot, htypes⟩ := hs.exists_at? hself
            cases hroot
            obtain ⟨q, hq, hage⟩ := hs.exists_at? hinner
            exact ⟨r.1, r.2, s, rfl, hroots, (Option.some.inj htypes).symm, q, hq,
              (Option.some.inj hage).symm⟩
  · exact hresponse.refused false weighedValue 0
      ⟨.obj [("additionalProperties", .obj [("type", .int 5)])],
        List.mem_singleton_self _, [.additional], .obj [("type", .int 5)], rfl, rfl⟩

end ApiForge
