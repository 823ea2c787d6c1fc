import ApiForge.Proofs.Source.Form
import ApiForge.Proofs.Text.Split
import ApiForge.Source.Step
import Mathlib.Data.List.TakeWhile
/-!
Types that are read back from the source.

# Readers

A source defines types as structs, enumerations and aliases. `typesIn` finds the
names of the structs and enumerations among all that is written, and `fieldsIn`
the fields of structs. `declaredIn` reads whole declarations, and only those that
stand in no block: of a struct the fields with their types, of an enumeration the
literals, of an alias what it stands for.

# Names

The text of a type is put together from names. `namesIn` takes it apart again,
and `held?` finds the name of the type whose value a value of the type holds.
-/

namespace ApiForge.Source

-- ================================================ statement vocabulary

/-- What stands in a text between two others. -/
def between? (front back text : String) : Option String := do
  let rest ← text.toList.dropPrefix? front.toList
  let name ← rest.dropSuffix? back.toList
  return String.ofList name

/-- The name of the struct or enumeration that a step begins to define. -/
def typeName? : Step → Option String
  | .enter text =>
    (between? "pub struct " " \x7b" text).or (between? "pub enum " " \x7b" text)
  | _ => none

/-- The structs and enumerations that are defined in a source, in order. -/
def typesIn (steps : List Step) : List String :=
  steps.filterMap typeName?

/-- The field that a line declares. -/
def field? : Step → Option String
  | .line text =>
    (skip "pub " text.toList).map fun cs =>
      String.ofList (cs.takeWhile (· != ':'))
  | _ => none

/-- The fields that are declared in a source, in order. -/
def fieldsIn (steps : List Step) : List String :=
  steps.filterMap field?

/-- The type of the field that a line declares, as text. -/
def fieldType? : Step → Option String
  | .line text => do
    let cs ← skip "pub " text.toList
    let type ← ((cs.dropWhile (· != ':')).drop 2).dropSuffix? [',']
    return String.ofList type
  | _ => none

/-- The name in transferred data that a line gives to what is declared behind
it. -/
def wire? : Step → Option String
  | .line text => do
    let (wire, _) ← Text.Quoted.read? (← skip "#[serde(rename = " text.toList)
    return wire
  | _ => none

/-- A field as a struct declares it: its name in transferred data, its identifier
and the text of its type. -/
structure DeclaredField where
  wire : String
  ident : String
  type : String
deriving DecidableEq, Repr

/-- A type as a source declares it. -/
inductive Declared where
  | struct (name : String) (fields : List DeclaredField)
  | enumeration (name : String) (literals : List String)
  | synonym (name type : String)
deriving DecidableEq, Repr

namespace Declared

/-- The name that is declared. -/
def name : Declared → String
  | struct name _ => name
  | enumeration name _ => name
  | synonym name _ => name

/-- The types that stand in a declaration, as texts. -/
def types : Declared → List String
  | struct _ fields => fields.map (·.type)
  | enumeration _ _ => []
  | synonym _ type => [type]

end Declared

/-- The fields that are declared up to the end of a block; `wire` is what the next
one is called in transferred data. -/
def declaredFields (wire : String) : List Step → List DeclaredField
  | [] => []
  | .leave _ :: _ => []
  | step :: rest =>
    match wire? step with
    | some wire => declaredFields wire rest
    | none =>
      match field? step, fieldType? step with
      | some ident, some type => ⟨wire, ident, type⟩ :: declaredFields wire rest
      | _, _ => declaredFields wire rest

/-- The literals of the variants up to the end of a block. -/
def declaredLiterals : List Step → List String
  | [] => []
  | .leave _ :: _ => []
  | step :: rest => (wire? step).toList ++ declaredLiterals rest

/-- The alias that a line declares. -/
def synonym? (text : String) : Option Declared := do
  let cs ← skip "pub type " text.toList
  let type ← (← skip " = " (cs.dropWhile (· != ' '))).dropSuffix? [';']
  return .synonym (String.ofList (cs.takeWhile (· != ' '))) (String.ofList type)

/-- The type that a step begins to declare, with the steps behind it. -/
def declared? : Step → List Step → Option Declared
  | .line text, _ => synonym? text
  | .enter text, rest =>
    ((between? "pub struct " " \x7b" text).map
        fun name => .struct name (declaredFields "" rest)).or
      ((between? "pub enum " " \x7b" text).map
        fun name => .enumeration name (declaredLiterals rest))
  | _, _ => none

/-- The types that are declared outside of blocks, when so many blocks are
open. -/
def declaredAt (depth : Nat) : List Step → List Declared
  | [] => []
  | step :: rest =>
    (if depth = 0 then declared? step rest else none).toList
      ++ declaredAt (step.write depth).2 rest

/-- The types that a source declares, in order. -/
def declaredIn (steps : List Step) : List Declared := declaredAt 0 steps

/-- The characters of names. -/
def isNameChar (c : Char) : Bool := c.isAlphanum || c == '_'

/-- What can be read as one name. -/
def IsName (name : String) : Prop :=
  name ≠ "" ∧ ∀ c ∈ name.toList, isNameChar c = true

/-- The names in the text of a type. -/
def namesIn (type : String) : List String :=
  ((Text.splitBy (fun c => !isNameChar c) type.toList).filter
    fun piece => !piece.isEmpty).map String.ofList

/-- The names that the types of libraries are written with. -/
def libraryNames : List String :=
  ["String", "Option", "Vec", "Box", "std", "collections", "BTreeMap", "chrono",
   "NaiveDate", "DateTime", "Utc", "i32", "i64", "f32", "f64", "bool",
   "serde_json", "Value"]

/-- The name that is left of names when they begin with that of an optional value,
if it is the only one. -/
def heldOf (names : List String) : Option String :=
  match names.dropWhile (· == "Option") with
  | [name] => some name
  | _ => none

/-- The name of the type whose value a value of a type holds, unless it is kept
elsewhere: what is behind a box, in a list or in a map. -/
def held? (type : String) : Option String := heldOf (namesIn type)

-- ======================================================= structs and enums

/-- What stands between a front and a back is read. -/
theorem between?_append (front name back : String) :
    between? front back (front ++ name ++ back) = some name := by
  have hfront : (front ++ name ++ back).toList.dropPrefix? front.toList
      = some (name.toList ++ back.toList) := by
    rw [String.toList_append, String.toList_append, List.append_assoc]
    exact List.dropPrefix?_append_of_beq _ (beq_self_eq_true _)
  have hback : (name.toList ++ back.toList).dropSuffix? back.toList
      = some name.toList :=
    List.dropSuffix?_eq_some_iff.2 ⟨_, rfl, beq_self_eq_true _⟩
  rw [between?, hfront, Option.bind_eq_bind, Option.bind_some, hback]
  exact congrArg some String.ofList_toList

/-- Nothing stands between two texts if the first is not in front. -/
theorem between?_eq_none {front back text : String} {i : Nat} {c : Char}
    (hfront : front.toList[i]? = some c) (h : text.toList[i]? ≠ some c) :
    between? front back text = none := by
  have hdrop : text.toList.dropPrefix? front.toList = none := by
    rw [Option.eq_none_iff_forall_ne_some]
    intro rest hrest
    obtain ⟨found, htext, hfound⟩ := List.dropPrefix?_eq_some_iff.1 hrest
    obtain ⟨hlt, -⟩ := List.getElem?_eq_some_iff.1 hfront
    rw [htext, eq_of_beq hfound, List.getElem?_append_left hlt] at h
    exact h hfront
  rw [between?, hdrop]
  rfl

@[simp]
theorem typeName?_struct (name : String) :
    typeName? (.enter ("pub struct " ++ name ++ " \x7b")) = some name := by
  rw [typeName?, between?_append]
  rfl

@[simp]
theorem typeName?_enum (name : String) :
    typeName? (.enter ("pub enum " ++ name ++ " \x7b")) = some name := by
  have hstruct : between? "pub struct " " \x7b" ("pub enum " ++ name ++ " \x7b")
      = none := by
    rw [between?, String.toList_append, String.toList_append, List.append_assoc]
    rfl
  rw [typeName?, between?_append, hstruct]
  rfl

/-- A block that opens with another letter defines no type. -/
@[simp]
theorem typeName?_of_head {text : String}
    (h : text.toList.head? ≠ some 'p') : typeName? (.enter text) = none := by
  rw [List.head?_eq_getElem?] at h
  have hstruct : "pub struct ".toList[0]? = some 'p' := by decide
  have henum : "pub enum ".toList[0]? = some 'p' := by decide
  rw [typeName?, between?_eq_none hstruct h, between?_eq_none henum h]
  rfl

/-- Nor does one that opens with the word for a function or a trait. -/
@[simp]
theorem typeName?_of_word {text : String}
    (h : text.toList[4]? ≠ some 's' ∧ text.toList[4]? ≠ some 'e') :
    typeName? (.enter text) = none := by
  have hstruct : "pub struct ".toList[4]? = some 's' := by decide
  have henum : "pub enum ".toList[4]? = some 'e' := by decide
  rw [typeName?, between?_eq_none hstruct h.1, between?_eq_none henum h.2]
  rfl

@[simp]
theorem typeName?_line (text : String) : typeName? (.line text) = none := rfl

@[simp]
theorem typeName?_blank : typeName? .blank = none := rfl

@[simp]
theorem typeName?_leave (text : String) : typeName? (.leave text) = none := rfl

@[simp]
theorem typeName?_doc (text : Option String) : typeName? (.doc text) = none :=
  rfl

@[simp]
theorem typesIn_nil : typesIn [] = [] := rfl

@[simp]
theorem typesIn_append (l l' : List Step) :
    typesIn (l ++ l') = typesIn l ++ typesIn l' :=
  List.filterMap_append

@[simp]
theorem typesIn_cons (step : Step) (l : List Step) :
    typesIn (step :: l) = (typeName? step).toList ++ typesIn l := by
  rw [typesIn, List.filterMap_cons]
  cases typeName? step <;> rfl

@[simp]
theorem typesIn_flatMap {α : Type} (l : List α) (f : α → List Step) :
    typesIn (l.flatMap f) = l.flatMap fun a => typesIn (f a) :=
  List.filterMap_flatMap

@[simp]
theorem typesIn_map {α : Type} (l : List α) (f : α → Step) :
    typesIn (l.map f) = l.filterMap fun a => typeName? (f a) :=
  List.filterMap_map
-- ================================================================== fields

/-- The identifier of a field is read from the line that declares it. -/
theorem field?_declaration {ident : String} (h : ':' ∉ ident.toList)
    (type : String) :
    field? (.line ("pub " ++ ident ++ ": " ++ type ++ ",")) = some ident := by
  have hcolon : ∀ c ∈ ident.toList, (c != ':') = true := by
    rintro c hc
    exact bne_iff_ne.2 fun heq => h (heq ▸ hc)
  have htake : (ident.toList ++ ':' :: ' ' :: (type.toList ++ [','])).takeWhile
      (· != ':') = ident.toList :=
    Text.takeWhile_append_cons hcolon rfl _
  rw [field?]
  simp only [String.toList_append, List.append_assoc]
  rw [skip_append, Option.map_some]
  exact congrArg some ((congrArg String.ofList htake).trans String.ofList_toList)

/-- A line that opens with another letter declares no field. -/
theorem field?_of_head {text : String} {c : Char}
    (h : text.toList.head? = some c) (hc : c ≠ 'p') :
    field? (.line text) = none := by
  rw [field?, skip_of_ne rfl h hc]
  rfl

@[simp]
theorem field?_enter (text : String) : field? (.enter text) = none := rfl

@[simp]
theorem field?_leave (text : String) : field? (.leave text) = none := rfl

@[simp]
theorem fieldsIn_nil : fieldsIn [] = [] := rfl

@[simp]
theorem fieldsIn_cons (step : Step) (l : List Step) :
    fieldsIn (step :: l) = (field? step).toList ++ fieldsIn l := by
  rw [fieldsIn, List.filterMap_cons]
  cases field? step <;> rfl

@[simp]
theorem fieldsIn_append (l l' : List Step) :
    fieldsIn (l ++ l') = fieldsIn l ++ fieldsIn l' :=
  List.filterMap_append

/-- The type of a field stands between the colon behind its identifier and the
comma. -/
theorem fieldType?_declaration {ident : String} (h : ':' ∉ ident.toList)
    (type : String) :
    fieldType? (.line ("pub " ++ ident ++ ": " ++ type ++ ",")) = some type := by
  have hcolon : ident.toList.dropWhile (· != ':') = [] := by
    refine List.dropWhile_eq_nil_iff.2 fun c hc => bne_iff_ne.2 ?_
    rintro rfl
    exact h hc
  have hdrop : (ident.toList ++ ':' :: ' ' :: (type.toList ++ [','])).dropWhile
      (· != ':') = ':' :: ' ' :: (type.toList ++ [',']) := by
    rw [Text.dropWhile_append_cons rfl, hcolon, List.nil_append]
  have hcomma : (type.toList ++ [',']).dropSuffix? [','] = some type.toList :=
    List.dropSuffix?_eq_some_iff.2 ⟨_, rfl, beq_self_eq_true _⟩
  rw [fieldType?]
  simp only [String.toList_append, List.append_assoc]
  rw [skip_append, Option.bind_eq_bind, Option.bind_some]
  show (((ident.toList ++ ':' :: ' ' :: (type.toList ++ [','])).dropWhile _).drop
    2).dropSuffix? _ >>= _ = _
  rw [hdrop, List.drop_succ_cons, List.drop_succ_cons, List.drop_zero, hcomma]
  exact congrArg some String.ofList_toList

/-- A line with an attribute gives the name that is quoted in it. -/
theorem wire?_attribute (wire rest : String) :
    wire? (.line ("#[serde(rename = " ++ Text.Quoted.encode wire ++ rest))
      = some wire := by
  rw [wire?]
  simp only [String.toList_append, List.append_assoc]
  rw [skip_append, Option.bind_eq_bind, Option.bind_some,
    Text.Quoted.read?_encode]
  rfl

/-- A line that opens with another character gives no name. -/
theorem wire?_of_head {text : String} {c : Char}
    (h : text.toList.head? = some c) (hc : c ≠ '#') :
    wire? (.line text) = none := by
  rw [wire?, skip_of_ne (c := '#') (by decide) h hc]
  rfl

/-- A field is declared behind the line with its name in transferred data. -/
theorem declaredFields_field {wire ident : String} (h : ':' ∉ ident.toList)
    (before behind type : String) (description : Option String)
    (rest : List Step) :
    declaredFields before
        (.doc description
          :: .line ("#[serde(rename = " ++ Text.Quoted.encode wire ++ behind)
          :: .line ("pub " ++ ident ++ ": " ++ type ++ ",") :: rest)
      = ⟨wire, ident, type⟩ :: declaredFields wire rest := by
  have hline : wire? (.line ("pub " ++ ident ++ ": " ++ type ++ ",")) = none := by
    refine wire?_of_head (c := 'p') ?_ (by decide)
    simp only [String.toList_append, List.append_assoc]
    rfl
  have hdoc : wire? (.doc description) = none := rfl
  have hnone : field? (.doc description) = none := rfl
  -- three steps are read: the comment, the name in transferred data, the declaration
  rw [declaredFields, hdoc]
  dsimp only
  rw [hnone]
  dsimp only
  rw [declaredFields, wire?_attribute]
  dsimp only
  rw [declaredFields, hline]
  dsimp only
  rw [field?_declaration h, fieldType?_declaration h]
  all_goals simp

/-- A variant has the literal of the line in front of it. -/
theorem declaredLiterals_variant {c : Char} {variant : String}
    (h : variant.toList.head? = some c) (hc : c ≠ '#')
    (literal behind : String) (rest : List Step) :
    declaredLiterals
        (.line ("#[serde(rename = " ++ Text.Quoted.encode literal ++ behind)
          :: .line variant :: rest)
      = literal :: declaredLiterals rest := by
  rw [declaredLiterals, declaredLiterals, wire?_attribute, wire?_of_head h hc]
  · rfl
  all_goals simp

-- ============================================================ declarations

/-- A name without a space in it is read from its alias. -/
theorem synonym?_declaration {name : String} (h : ' ' ∉ name.toList)
    (type : String) :
    synonym? ("pub type " ++ name ++ " = " ++ type ++ ";") = some (.synonym name type) := by
  have hname : ∀ c ∈ name.toList, (c != ' ') = true := by
    rintro c hc
    exact bne_iff_ne.2 fun heq => h (heq ▸ hc)
  -- the name ends at the first space, and the type at the semicolon
  have htake : (name.toList ++ ' ' :: ('=' :: ' ' :: (type.toList ++ [';']))).takeWhile
      (· != ' ') = name.toList :=
    Text.takeWhile_append_cons hname rfl _
  have hdrop : (name.toList ++ ' ' :: ('=' :: ' ' :: (type.toList ++ [';']))).dropWhile
      (· != ' ') = " = ".toList ++ (type.toList ++ [';']) := by
    rw [Text.dropWhile_append_cons rfl, List.dropWhile_eq_nil_iff.2 hname]
    rfl
  have hsuffix : (type.toList ++ [';']).dropSuffix? [';'] = some type.toList :=
    List.dropSuffix?_eq_some_iff.2 ⟨_, rfl, beq_self_eq_true _⟩
  rw [synonym?]
  simp only [String.toList_append, List.append_assoc]
  rw [skip_append, Option.bind_eq_bind, Option.bind_some]
  show ((skip " = " ((name.toList
    ++ ' ' :: ('=' :: ' ' :: (type.toList ++ [';']))).dropWhile _)) >>= _) = _
  rw [hdrop, skip_append, Option.bind_eq_bind, Option.bind_some, hsuffix]
  show some (Declared.synonym (String.ofList ((name.toList
    ++ ' ' :: ('=' :: ' ' :: (type.toList ++ [';']))).takeWhile _)) _) = _
  rw [htake, String.ofList_toList, String.ofList_toList]

/-- Without its first letter a text is not taken off. -/
theorem skip_eq_none {t : String} {c : Char} {cs : List Char}
    (ht : t.toList.head? = some c) (h : cs.head? ≠ some c) : skip t cs = none := by
  cases hcs : cs.head? with
  | some d => exact skip_of_ne ht hcs fun heq => h (hcs.trans (congrArg some heq))
  | none =>
      obtain ⟨more, ht⟩ := List.head?_eq_some_iff.1 ht
      rw [List.head?_eq_none_iff.1 hcs, skip, ht]
      rfl

/-- A line that opens with another letter declares no other name. -/
@[simp]
theorem synonym?_of_head {text : String} (h : text.toList.head? ≠ some 'p') :
    synonym? text = none := by
  rw [synonym?, skip_eq_none (c := 'p') (by decide) h]
  rfl

/-- Nor does one that declares a constant. -/
theorem synonym?_const (behind : String) : synonym? ("pub const " ++ behind) = none := by
  rw [synonym?, String.toList_append]
  rfl

/-- A block that opens with another letter declares no type. -/
@[simp]
theorem declared?_enter_of_head {text : String} (h : text.toList.head? ≠ some 'p')
    (rest : List Step) : declared? (.enter text) rest = none := by
  rw [List.head?_eq_getElem?] at h
  have hstruct : "pub struct ".toList[0]? = some 'p' := by decide
  have henum : "pub enum ".toList[0]? = some 'p' := by decide
  rw [declared?, between?_eq_none hstruct h, between?_eq_none henum h]
  rfl

/-- A record is read with the fields behind the line that opens it. -/
theorem declared?_struct (name : String) (rest : List Step) :
    declared? (.enter ("pub struct " ++ name ++ " \x7b")) rest
      = some (.struct name (declaredFields "" rest)) := by
  rw [declared?, between?_append]
  rfl

/-- An enumeration is read with the literals behind the line that opens it. -/
theorem declared?_enum (name : String) (rest : List Step) :
    declared? (.enter ("pub enum " ++ name ++ " \x7b")) rest
      = some (.enumeration name (declaredLiterals rest)) := by
  have hstruct : between? "pub struct " " \x7b" ("pub enum " ++ name ++ " \x7b")
      = none := by
    rw [between?, String.toList_append, String.toList_append, List.append_assoc]
    rfl
  rw [declared?, between?_append, hstruct]
  rfl

-- ================================================================== blocks

section

variable (depth : Nat) (text : String) (rest : List Step)

/-- Outside of blocks a line may declare another name. -/
theorem declaredAt_line :
    declaredAt 0 (.line text :: rest) = (synonym? text).toList ++ declaredAt 0 rest := by
  rw [declaredAt, if_pos rfl]
  rfl

/-- A block that is entered there may declare a struct or an enumeration. -/
theorem declaredAt_enter :
    declaredAt 0 (.enter text :: rest)
      = (declared? (.enter text) rest).toList ++ declaredAt 1 rest := by
  rw [declaredAt, if_pos rfl]
  rfl

/-- Behind a block that opens with another letter the source goes on. -/
theorem declaredAt_enter_of_head {text : String} (h : text.toList.head? ≠ some 'p')
    (rest : List Step) : declaredAt 0 (.enter text :: rest) = declaredAt 1 rest := by
  rw [declaredAt_enter, declared?_enter_of_head h]
  rfl

@[simp]
theorem declaredAt_blank :
    declaredAt depth (.blank :: rest) = declaredAt depth rest := by
  cases depth <;> rfl

@[simp]
theorem declaredAt_doc (description : Option String) :
    declaredAt depth (.doc description :: rest) = declaredAt depth rest := by
  cases depth <;> cases description <;> rfl

-- inside of a block nothing is declared, so only its depth is of interest

@[simp]
theorem declaredAt_line_inner :
    declaredAt (depth + 1) (.line text :: rest) = declaredAt (depth + 1) rest := by
  rw [declaredAt, if_neg (Nat.succ_ne_zero depth)]
  rfl

@[simp]
theorem declaredAt_enter_inner :
    declaredAt (depth + 1) (.enter text :: rest) = declaredAt (depth + 1 + 1) rest := by
  rw [declaredAt, if_neg (Nat.succ_ne_zero depth)]
  rfl

@[simp]
theorem declaredAt_leave_inner :
    declaredAt (depth + 1) (.leave text :: rest) = declaredAt depth rest := by
  rw [declaredAt, if_neg (Nat.succ_ne_zero depth)]
  rfl

@[simp]
theorem declaredAt_lines_inner {α : Type} (l : List α) (f : α → String) :
    declaredAt (depth + 1) (l.map (fun a => .line (f a)) ++ rest)
      = declaredAt (depth + 1) rest := by
  induction l with
  | nil => rfl
  | cons a l ih => exact ih

/-- The lines and comments of one piece after the other declare nothing. -/
theorem declaredAt_flatMap_inner {α : Type} {f : α → List Step}
    (h : ∀ a rest, declaredAt (depth + 1) (f a ++ rest) = declaredAt (depth + 1) rest)
    (l : List α) :
    declaredAt (depth + 1) (l.flatMap f ++ rest) = declaredAt (depth + 1) rest := by
  induction l with
  | nil => rfl
  | cons a l ih => rw [List.flatMap_cons, List.append_assoc, h, ih]

end

end ApiForge.Source
