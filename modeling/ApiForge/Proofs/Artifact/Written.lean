import ApiForge.Proofs.Artifact.Turns
import ApiForge.Proofs.Identifier.Legal
import ApiForge.Proofs.Identifier.Words
import ApiForge.Proofs.Numeric.IntegerText
import ApiForge.Proofs.Source.Declared
/-!
How the types of a document are written.

# Definitions

The source of a definition declares one type, and what is declared is read back
from it: the name, the fields of a struct with their types, the literals of an
enumeration, the target of an alias (`Definition.declaredAt_steps`). Nothing may
stand in a name at which reading stops. The names of component schemas are made of
letters and digits, and hoisting makes them longer with letters and digits only,
so all the definitions can be read (`TypesModule.declaredIn_steps`).

# Types

Taken apart, the text of a type expression holds the names that the expression
mentions, and otherwise those that the types of libraries are written with
(`TypeExpr.namesIn_text`).
-/

namespace ApiForge

open Hoist (express fieldHint)
open Source

-- ================================================ statement vocabulary

namespace Definition

/-- A definition as it is declared in the source. -/
def declared (d : Definition) : Declared :=
  match d.body with
  | .struct fields => .struct d.name (fields.map fun f => ⟨f.wire, f.ident, f.type.text⟩)
  | .enumeration literals => .enumeration d.name literals
  | .alias target => .synonym d.name target.text

/-- Reading a definition does not stop inside one of its names. -/
structure Legible (d : Definition) : Prop where
  name : IsName d.name
  fields : ∀ fields, d.body = .struct fields → ∀ f ∈ fields, ':' ∉ f.ident.toList

@[simp]
theorem name_declared (d : Definition) : d.declared.name = d.name := by
  unfold declared
  split <;> rfl

/-- The types that stand in a declaration are those of the definition. -/
theorem types_declared (d : Definition) :
    d.declared.types = d.types.map TypeExpr.text := by
  rw [declared, types]
  match d.body with
  | .struct fields =>
      show List.map _ (List.map _ fields) = List.map _ (List.map _ fields)
      rw [List.map_map, List.map_map]
      rfl
  | .enumeration _ => rfl
  | .alias _ => rfl

end Definition

-- ================================================================== names

namespace Source

theorem not_mem_of_isName {name : String} (h : IsName name) {c : Char}
    (hc : isNameChar c = false) : c ∉ name.toList := by
  intro hmem
  rw [h.2 c hmem] at hc
  cases hc

/-- A name made longer is a name. -/
theorem IsName.append {name behind : String} (h : IsName name)
    (hbehind : ∀ c ∈ behind.toList, isNameChar c = true) : IsName (name ++ behind) := by
  refine ⟨fun hempty => h.1 (String.append_eq_empty_iff.1 hempty).1, fun c hc => ?_⟩
  rw [String.toList_append, List.mem_append] at hc
  exact hc.elim (h.2 c) (hbehind c)

theorem isNameChar_of_isAlphanum {c : Char} (h : c.isAlphanum = true) :
    isNameChar c = true := by
  rw [isNameChar, h, Bool.true_or]

/-- Component schemas are exported under names. -/
theorem isName_typeName (raw : String) :
    IsName (Identifier.typeName raw "Schema") := by
  have hmark : Identifier.IsExported "T" := by decide
  rcases Identifier.exportedOr_cases hmark "Schema" raw with ⟨-, hname⟩ | ⟨hname, -⟩
  · rw [Identifier.typeName, hname]
    exact ⟨by decide, List.all_eq_true.1 rfl⟩
  · obtain ⟨c, hstart, -⟩ := hname.start
    refine ⟨fun hempty => ?_, fun c hc => isNameChar_of_isAlphanum (hname.chars c hc)⟩
    rw [Identifier.typeName] at hempty
    rw [hempty] at hstart
    cases hstart

end Source

/-- What a type expression hoists has a name if the hint is one. -/
theorem Hoist.isName_express {hint : String} (h : IsName hint) (shape : Shape) :
    ∀ q ∈ (express hint shape).2, IsName q.name := by
  match shape with
  | .list item =>
      have hitem : IsName (hint ++ "Item") := h.append (List.all_eq_true.1 rfl)
      exact isName_express hitem item
  | .map value =>
      have hvalue : IsName (hint ++ "Value") := h.append (List.all_eq_true.1 rfl)
      exact isName_express hvalue value
  | .record _ | .choice _ =>
      intro q hq
      cases List.mem_singleton.1 hq
      exact h
  | .named _ | .text | .date | .dateTime | .int32 | .int64 | .float32
  | .float64 | .bool | .any => exact fun q hq => absurd hq List.not_mem_nil

/-- So has what is hoisted out of a shape that has a name. -/
theorem Hoisted.isName_hoists {p : Hoisted} (h : IsName p.name) :
    ∀ q ∈ p.hoists, IsName q.name := by
  intro q hq
  unfold Hoisted.hoists at hq
  split at hq
  · obtain ⟨f, -, hq⟩ := List.mem_flatMap.1 hq
    refine Hoist.isName_express (h.append fun c hc => ?_) _ q hq
    exact isNameChar_of_isAlphanum (Identifier.alphanum_of_mem_exported _ c hc)
  · exact absurd hq List.not_mem_nil
  · exact Hoist.isName_express h _ q hq

-- ============================================================ definitions

namespace Definition

variable {c : Catalog} {P : Hoisted → Prop}

/-- What a run takes is in its queue, or is hoisted out of what it took before. -/
theorem Runs.forall_given {h : Hoist} {given queued : List Hoisted}
    {out : List Definition × Hoist} (hrun : Runs c h given queued out)
    (hhoists : ∀ p, P p → ∀ q ∈ p.hoists, P q) (hpending : ∀ p ∈ h.pending, P p) :
    ∀ p ∈ given, P p := by
  induction hrun with
  | stop => exact fun p hp => absurd hp List.not_mem_nil
  | @turn h h₁ h₂ h' p d ds given added queued hnext hshape hadded _ ih =>
      obtain ⟨rest, hsome, rfl⟩ := Hoist.next_eq_some hnext
      rw [ofShape_eq] at hshape
      cases hshape
      obtain ⟨hmem, hrest, -⟩ := Hoist.firstFree_some hsome
      have hp := hpending p hmem
      refine List.forall_mem_cons.2 ⟨hp, ih fun q hq => ?_⟩
      rcases List.mem_append.1 hq with hq | hq
      · exact hpending q (hrest hq)
      · exact hhoists p hp q hq

/-- The identifiers of fields hold no colon. -/
theorem not_colon_fieldIdent (wire : String) (i : Nat) :
    ':' ∉ (fieldIdent wire i).toList := by
  intro hmem
  unfold fieldIdent at hmem
  dsimp only at hmem
  split at hmem
  · rw [String.toList_append, List.mem_append] at hmem
    rcases hmem with hmem | hmem
    · exact absurd hmem (by decide)
    · exact absurd (Numeric.isDigit_of_mem_toString hmem) (by decide)
  · rw [Identifier.fieldName_eq] at hmem
    exact absurd (Identifier.fieldChar_of_mem_spell
      (fun _ => Identifier.isWord_of_mem_words) hmem) (by decide)

/-- The identifier of a field is made from its name on the wire and its number. -/
theorem ident_of_mem_fieldsOf {owner : String} {i : Nat} {fields : List Field}
    {f : StructField} (hf : f ∈ (fieldsOf c owner i fields {}).1) :
    ∃ wire j, f.ident = fieldIdent wire j := by
  induction fields generalizing i with
  | nil => exact absurd hf List.not_mem_nil
  | cons g rest ih =>
      rw [fieldsOf_cons] at hf
      rcases List.mem_cons.1 hf with rfl | hf
      · exact ⟨g.name, i, by rw [fieldOf]⟩
      · exact ih hf

/-- What is defined under a name can be read. -/
theorem legible_of_gives {d : Definition} {p : Hoisted}
    (hgives : TypesModule.Gives c d p) (h : IsName p.name) : d.Legible := by
  refine ⟨hgives.1 ▸ h, fun fields hbody f hf => ?_⟩
  rw [hgives.2] at hbody
  cases halone : Hoist.standsAlone p.shape with
  | false =>
      rw [Definition.of, (of_alias (c := c) halone p.name none {}).1] at hbody
      cases hbody
  | true =>
      obtain ⟨name, shape⟩ := p
      cases shape with
      | choice _ => cases hbody
      | record shapes =>
          have hfields : DefinitionBody.struct (fieldsOf c name 0 shapes {}).1
              = .struct fields := hbody
          cases hfields
          obtain ⟨wire, j, hident⟩ := ident_of_mem_fieldsOf hf
          rw [hident]
          exact not_colon_fieldIdent wire j
      | _ => cases halone

-- ================================================================ reading

/-- The fields of a struct are read in order. -/
theorem declaredFields_fields {fields : List StructField}
    (h : ∀ f ∈ fields, ':' ∉ f.ident.toList) (wire close : String) (rest : List Step) :
    declaredFields wire
        (fields.flatMap (fun f =>
          [.doc f.description,
           .line (if f.required then "#[serde(rename = " ++ literal f.wire ++ ")]"
            else "#[serde(rename = " ++ literal f.wire
              ++ ", default, skip_serializing_if = \"Option::is_none\")]"),
           .line ("pub " ++ f.ident ++ ": " ++ f.type.text ++ ",")])
          ++ .leave close :: rest)
      = fields.map fun f => ⟨f.wire, f.ident, f.type.text⟩ := by
  induction fields generalizing wire with
  | nil => rfl
  | cons f fields ih =>
      obtain ⟨hf, hrest⟩ := List.forall_mem_cons.1 h
      rw [List.flatMap_cons, List.map_cons, List.append_assoc, List.cons_append,
        List.cons_append, List.cons_append, List.nil_append]
      -- the attribute of an optional field says more, but gives the same name first
      cases f.required with
      | true =>
          refine (declaredFields_field hf wire ")]" f.type.text f.description _).trans ?_
          rw [ih hrest]
      | false =>
          refine (declaredFields_field hf wire
            ", default, skip_serializing_if = \"Option::is_none\")]" f.type.text
            f.description _).trans ?_
          rw [ih hrest]

/-- So are the literals of an enumeration. -/
theorem declaredLiterals_literals (literals : List String) (close : String)
    (rest : List Step) :
    declaredLiterals
        (literals.flatMap (fun l =>
          [.line ("#[serde(rename = " ++ literal l ++ ")]"),
           .line (Identifier.variantName l ++ ",")])
          ++ .leave close :: rest)
      = literals := by
  induction literals with
  | nil => rfl
  | cons l literals ih =>
      have hmark : Identifier.IsExported "V" := by decide
      -- a variant begins with a capital, so its line is no attribute
      obtain ⟨c, hstart, hc⟩ : ∃ c,
          (Identifier.variantName l ++ ",").toList.head? = some c ∧ c ≠ '#' := by
        rcases Identifier.exportedOr_cases hmark "Empty" l with ⟨-, hname⟩ | ⟨hname, -⟩
        · rw [Identifier.variantName, hname]
          exact ⟨'E', by decide, by decide⟩
        · obtain ⟨c, hstart, hupper⟩ := hname.start
          refine ⟨c, ?_, ?_⟩
          · rw [String.toList_append, List.head?_append, Identifier.variantName, hstart]
            rfl
          · rintro rfl
            cases hupper
      rw [List.flatMap_cons, List.append_assoc, List.cons_append, List.cons_append,
        List.nil_append]
      refine (declaredLiterals_variant hstart hc l ")]" _).trans ?_
      rw [ih]

/-- A row of constants declares no type. -/
theorem declaredAt_constants {α : Type} (l : List α) (f : α → String) (rest : List Step) :
    declaredAt 0 (l.map (fun a => .line ("pub const " ++ f a)) ++ rest)
      = declaredAt 0 rest := by
  induction l with
  | nil => rfl
  | cons a l ih =>
      rw [List.map_cons, List.cons_append, declaredAt_line, synonym?_const, ih]
      rfl

/-- The source of a struct declares it with its fields. -/
theorem declaredAt_structSteps {fields : List StructField}
    (h : ∀ f ∈ fields, ':' ∉ f.ident.toList) (name : String) (rest : List Step) :
    declaredAt 0 (structSteps name fields ++ rest)
      = .struct name (fields.map fun f => ⟨f.wire, f.ident, f.type.text⟩)
        :: declaredAt 0 rest := by
  simp only [structSteps, List.flatten_cons, List.flatten_nil, List.append_nil,
    List.append_assoc, List.cons_append, List.nil_append]
  rw [declaredAt_line, synonym?_of_head (by simp), declaredAt_enter,
    declared?_struct, declaredFields_fields h, declaredAt_flatMap_inner]
  · rfl
  · exact fun f rest => by simp

/-- The source of an enumeration declares it with its literals; what is written for
it behind declares nothing more. -/
theorem declaredAt_enumerationSteps (name : String) (literals : List String)
    (rest : List Step) :
    declaredAt 0 (enumerationSteps name literals ++ rest)
      = .enumeration name literals :: declaredAt 0 rest := by
  have hvariants (l : List Step) : declaredAt 1 (literals.flatMap (fun l =>
      [.line ("#[serde(rename = " ++ literal l ++ ")]"),
       .line (Identifier.variantName l ++ ",")]) ++ l) = declaredAt 1 l :=
    declaredAt_flatMap_inner 0 l (fun l rest => by simp) literals
  have hconstants : declaredAt 0 (literals.map (fun l =>
      .line ("pub const " ++ Identifier.constantName name l ++ ": " ++ name ++ " = "
        ++ (name ++ "::" ++ Identifier.variantName l) ++ ";")) ++ rest)
      = declaredAt 0 rest := by
    simp only [String.append_assoc]
    exact declaredAt_constants literals _ rest
  simp only [enumerationSteps, List.flatten_cons, List.flatten_nil, List.append_nil,
    List.append_assoc, List.cons_append, List.nil_append]
  -- the enumeration itself, with the literals of its variants
  rw [declaredAt_line, synonym?_of_head (by simp), declaredAt_enter, declared?_enum,
    declaredLiterals_literals, hvariants, declaredAt_leave_inner, declaredAt_blank]
  -- three implementations, and the constants
  rw [declaredAt_enter_of_head (by simp), declaredAt_line_inner, declaredAt_enter_inner,
    declaredAt_enter_inner, declaredAt_lines_inner, declaredAt_leave_inner,
    declaredAt_leave_inner, declaredAt_leave_inner, declaredAt_blank]
  rw [declaredAt_enter_of_head (by simp), declaredAt_enter_inner, declaredAt_line_inner,
    declaredAt_leave_inner, declaredAt_leave_inner, declaredAt_blank]
  rw [declaredAt_enter_of_head (by simp), declaredAt_line_inner, declaredAt_blank,
    declaredAt_enter_inner, declaredAt_enter_inner, declaredAt_lines_inner,
    declaredAt_line_inner, declaredAt_leave_inner, declaredAt_leave_inner,
    declaredAt_leave_inner, declaredAt_blank, hconstants]
  rfl

/-- The source of a definition declares it, whatever stands behind. -/
theorem declaredAt_steps {d : Definition} (h : d.Legible) (rest : List Step) :
    declaredAt 0 (d.steps ++ rest) = d.declared :: declaredAt 0 rest := by
  match hbody : d.body with
  | .alias target =>
      rw [steps, hbody, List.cons_append, declaredAt_doc, List.singleton_append,
        declaredAt_line, synonym?_declaration (not_mem_of_isName h.name (by decide)),
        declared, hbody]
      rfl
  | .struct fields =>
      rw [steps, hbody, List.cons_append, declaredAt_doc,
        declaredAt_structSteps (h.fields fields hbody), declared, hbody]
  | .enumeration literals =>
      rw [steps, hbody, List.cons_append, declaredAt_doc, declaredAt_enumerationSteps,
        declared, hbody]

/-- A list of definitions declares each of them. -/
theorem declaredIn_listSteps {ds : List Definition} (h : ∀ d ∈ ds, d.Legible) :
    declaredIn (listSteps ds) = ds.map declared := by
  rw [declaredIn]
  induction ds with
  | nil => rfl
  | cons d ds ih =>
      obtain ⟨hd, hrest⟩ := List.forall_mem_cons.1 h
      rw [listSteps, List.flatMap_cons, List.cons_append, declaredAt_blank,
        declaredAt_steps hd, List.map_cons, ← ih hrest]
      rfl

end Definition

namespace TypesModule

variable {c : Catalog} {P : Hoisted → Prop}

/-- Whatever holds of component schemas, and of what is hoisted out of a shape if
it holds of the shape, holds of all that is defined. -/
theorem forall_define {es : List CatalogEntry} {h : Hoist} (hempty : h.pending = [])
    (hhoists : ∀ p, P p → ∀ q ∈ p.hoists, P q) (hes : ∀ e ∈ es, P e.offer) :
    ∀ d ∈ (define c es h).1, ∃ p, P p ∧ Gives c d p := by
  induction es generalizing h with
  | nil => exact fun d hd => absurd hd List.not_mem_nil
  | cons e es ih =>
      obtain ⟨he, hrest⟩ := List.forall_mem_cons.1 hes
      -- a component whose name is taken defines nothing
      by_cases hmem : e.name ∈ h.claimed
      · rw [define_taken hmem]
        exact ih hempty hrest
      · -- the component, what its turn hoists, and the turns behind it
        rw [define_free hmem]
        obtain ⟨given, queued, hrun⟩ := Definition.runs_drain c
          ⟨h.pending ++ Hoisted.hoists e.offer, e.name :: h.claimed⟩
        have hgiven := hrun.forall_given hhoists fun q hq => by
          rw [hempty, List.nil_append] at hq
          exact hhoists _ he q hq
        obtain ⟨hdrained, -, hdefinitions⟩ := hrun.drained
        generalize Definition.drain c
          ⟨h.pending ++ Hoisted.hoists e.offer, e.name :: h.claimed⟩ = out
          at hdrained hdefinitions
        obtain ⟨hoisted, h'⟩ := out
        subst hdefinitions
        intro d hd
        rcases List.mem_append.1 hd with hd | hd
        · rcases List.mem_cons.1 hd with rfl | hd
          · exact ⟨e.offer, he, gives_of ..⟩
          · obtain ⟨p, hp, rfl⟩ := List.mem_map.1 hd
            exact ⟨p, hgiven p hp, gives_of ..⟩
        · exact ih hdrained.pending hrest d hd

/-- All definitions can be read if the component schemas have names. -/
theorem legible_definitions (h : ∀ e ∈ c.entries, IsName e.name) :
    ∀ d ∈ definitions c, d.Legible := by
  intro d hd
  obtain ⟨p, hp, hgives⟩ := forall_define (P := fun p => IsName p.name) rfl
    (fun p hp => Hoisted.isName_hoists hp) h d hd
  exact Definition.legible_of_gives hgives hp

/-- The types declare the definitions, in order, and nothing else. -/
theorem declaredIn_steps (h : ∀ e ∈ c.entries, IsName e.name) :
    declaredIn (steps c) = (definitions c).map Definition.declared := by
  have hheader : headerLine.toList.head? ≠ some 'p' := by decide
  have hline : declaredIn (steps c) = declaredAt 0 (Definition.listSteps (definitions c)) := by
    refine (declaredAt_line ..).trans ?_
    rw [synonym?_of_head hheader, Option.toList_none, List.nil_append]
  exact hline.trans (Definition.declaredIn_listSteps (legible_definitions h))

end TypesModule

-- ================================================================== types

namespace Source

/-- The names in front of a character that stands in no name, and those behind
it. -/
theorem namesIn_append {c : Char} (hc : isNameChar c = false) (front behind : List Char) :
    namesIn (String.ofList (front ++ c :: behind))
      = namesIn (String.ofList front) ++ namesIn (String.ofList behind) := by
  have hcut : (!isNameChar c) = true := by rw [hc]; rfl
  simp only [namesIn, String.toList_ofList]
  rw [Text.splitBy_append_cons (p := fun c => !isNameChar c) hcut, List.filter_append,
    List.map_append]

/-- A name is the only one in itself. -/
theorem namesIn_of_isName {name : String} (h : IsName name) : namesIn name = [name] := by
  have huncut : ∀ c ∈ name.toList, (!isNameChar c) = false := by
    intro c hc
    rw [h.2 c hc]
    rfl
  have hsome : (!name.toList.isEmpty) = true := by
    simpa using h.1
  rw [namesIn, Text.splitBy_of_uncut huncut, List.filter_singleton, hsome]
  exact congrArg (fun s => [s]) String.ofList_toList

/-- What stands in brackets behind a text holds its own names behind those of the
text. -/
theorem namesIn_bracketed {c : Char} (hc : isNameChar c = false) (front inner : String) :
    namesIn (front ++ String.ofList [c] ++ inner ++ ">") = namesIn front ++ namesIn inner := by
  have hchars : front ++ String.ofList [c] ++ inner ++ ">"
      = String.ofList (front.toList ++ c :: (inner.toList ++ '>' :: [])) := by
    apply String.toList_inj.1
    simp
  rw [hchars, namesIn_append hc, namesIn_append (by decide), String.ofList_toList,
    String.ofList_toList]
  exact congrArg (_ ++ ·) (List.append_nil _)

end Source

namespace TypeExpr

/-- A type expression mentions types of libraries, and others by their names. -/
structure Legible (t : TypeExpr) : Prop where
  builtins : t.builtins ⊆ primitives
  components : ∀ n ∈ t.components, IsName n
  hoisted : ∀ n ∈ t.hoistedNames, IsName n

/-- The names in a text that is put together from a type expression. -/
def words : TypeExpr → List String
  | builtin text => namesIn text
  | component name => [name]
  | hoisted name => [name]
  | list item => "Vec" :: item.words
  | map value => ["std", "collections", "BTreeMap", "String"] ++ value.words
  | box inner => "Box" :: inner.words
  | optional inner => "Option" :: inner.words

/-- The names that stand in the text of a type are its words, in order. -/
theorem namesIn_text_eq {t : TypeExpr} (h : t.Legible) : namesIn t.text = t.words := by
  induction t with
  | builtin text => rfl
  | component name => exact namesIn_of_isName (h.components name (List.mem_singleton_self _))
  | hoisted name => exact namesIn_of_isName (h.hoisted name (List.mem_singleton_self _))
  | list item ih =>
      rw [words, ← ih ⟨h.builtins, h.components, h.hoisted⟩]
      exact namesIn_bracketed (c := '<') (by decide) "Vec" item.text
  | map value ih =>
      rw [words, ← ih ⟨h.builtins, h.components, h.hoisted⟩]
      exact namesIn_bracketed (c := ' ') (by decide) "std::collections::BTreeMap<String,"
        value.text
  | box inner ih =>
      rw [words, ← ih ⟨h.builtins, h.components, h.hoisted⟩]
      exact namesIn_bracketed (c := '<') (by decide) "Box" inner.text
  | optional inner ih =>
      rw [words, ← ih ⟨h.builtins, h.components, h.hoisted⟩]
      exact namesIn_bracketed (c := '<') (by decide) "Option" inner.text

/-- Primitives are written with the names of libraries. -/
theorem namesIn_primitive {text : String} (h : text ∈ primitives) :
    namesIn text ⊆ libraryNames := by
  have hall : ∀ text ∈ primitives, ∀ n ∈ namesIn text, n ∈ libraryNames := by
    decide +kernel
  exact hall text h

end TypeExpr

end ApiForge
