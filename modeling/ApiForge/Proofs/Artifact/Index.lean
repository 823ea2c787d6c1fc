import ApiForge.Artifact.Generate
import ApiForge.Proofs.Source.Line
/-!
What the index declares.

The index is read back line by line: a module is declared by a line of its
own. Whatever the document says about itself, and whatever the package is
called, the modules so declared are those that the index was asked to declare,
in order (`declaredModules_indexSource`).
-/

namespace ApiForge

namespace IndexModule

/-- The module that a line of source declares. -/
def declaredModule? (line : String) : Option String :=
  match line.toList with
  | 'p' :: 'u' :: 'b' :: ' ' :: 'm' :: 'o' :: 'd' :: ' ' :: rest =>
    if rest.getLast? = some ';' then some (String.ofList rest.dropLast)
    else none
  | _ => none

/-- The modules that a source file declares, in order. -/
def declaredModules (source : String) : List String :=
  (Text.lines source).filterMap declaredModule?

/-- The line that declares a module is read back as this module. -/
theorem declaredModule?_declaration (m : String) :
    declaredModule? ("pub mod " ++ m ++ ";") = some m := by
  have hchars : ("pub mod " ++ m ++ ";").toList
      = 'p' :: 'u' :: 'b' :: ' ' :: 'm' :: 'o' :: 'd' :: ' '
          :: (m.toList ++ [';']) := by
    simp [String.toList_append]
  rw [declaredModule?, hchars]
  simp

/-- A line that starts otherwise declares no module. -/
theorem declaredModule?_eq_none {line : String} {c : Char} {rest : List Char}
    (h : line.toList = c :: rest) (hc : c ≠ 'p') :
    declaredModule? line = none := by
  rw [declaredModule?, h]
  split
  · rename_i heq
    exact absurd (List.cons.inj heq).1 hc
  · rfl

/-- A constant declares no module. -/
theorem declaredModule?_constant {before : String} {rest : List Char}
    (h : before.toList = 'p' :: 'u' :: 'b' :: ' ' :: 'c' :: rest)
    (value : String) :
    declaredModule? (before ++ value ++ ";") = none := by
  rw [declaredModule?, String.toList_append, String.toList_append, h]
  rfl

/-- A text that starts with a slash still does on one line. -/
theorem singleLine_slash {s : String} {rest : List Char}
    (h : s.toList = '/' :: rest) :
    ∃ more, (Text.singleLine s).toList = '/' :: more := by
  -- the first word begins with the slash, as a slash is no blank
  obtain ⟨piece, pieces, hsplit⟩ : ∃ piece pieces,
      Text.splitBy Text.isBlank ('/' :: rest) = ('/' :: piece) :: pieces := by
    rw [Text.splitBy]
    cases hrest : Text.splitBy Text.isBlank rest with
    | nil => exact ⟨[], [], rfl⟩
    | cons piece pieces => exact ⟨piece, pieces, rfl⟩
  obtain ⟨ws, hwords⟩ : ∃ ws,
      Text.words s = String.ofList ('/' :: piece) :: ws := by
    rw [Text.words, h, hsplit]
    exact ⟨_, rfl⟩
  rw [Text.singleLine, hwords]
  cases ws with
  | nil =>
      rw [String.intercalate_singleton, String.toList_ofList]
      exact ⟨piece, rfl⟩
  | cons w ws =>
      rw [String.intercalate_cons_cons, String.toList_append,
        String.toList_append, String.toList_ofList]
      exact ⟨_, rfl⟩

/-- What the index allows in every module that it declares. -/
def allowance : String :=
  "#[allow(dead_code, unused_imports, non_upper_case_globals, clippy::all)]"

/-- The lines of the index. -/
def lines (info : Info) (package : String) (modules : List String) :
    List String :=
  [headerLine,
    Text.singleLine
      ("// Package " ++ package ++ ": " ++ info.title ++ " " ++ info.version),
    ""]
  ++ modules.flatMap (fun m =>
    [allowance, "pub mod " ++ m ++ ";"])
  ++ ["", "/// Name of the generated package.",
    "pub const PACKAGE: &str = " ++ Definition.literal package ++ ";",
    "/// `info.title` of the source document.",
    "pub const API_TITLE: &str = " ++ Definition.literal info.title ++ ";",
    "/// `info.version` of the source document.",
    "pub const API_VERSION: &str = " ++ Definition.literal info.version ++ ";"]

variable {info : Info} {package : String} {modules : List String}

/-- The lines of the index are those that its steps write. -/
theorem steps_flat : (steps info package modules).map Source.Step.flat?
    = (lines info package modules).map some := by
  have hmodules : (modules.flatMap fun m =>
        ([.line allowance, .line ("pub mod " ++ m ++ ";")] :
          List Source.Step)).map
            Source.Step.flat?
      = (modules.flatMap fun m =>
          [allowance, "pub mod " ++ m ++ ";"]).map some := by
    rw [List.map_flatMap, List.map_flatMap]
    rfl
  simp only [allowance] at hmodules
  simp only [steps, lines, allowance, List.flatten_cons, List.flatten_nil,
    List.append_nil, List.map_append, hmodules]
  rfl

/-- A quoted text between texts on one line. -/
theorem oneLine_quoted {before : String} (s : String)
    (h : Text.OneLine before) :
    Text.OneLine (before ++ Definition.literal s ++ ";") :=
  (h.append (Text.oneLine_encode s)).append (by decide)

/-- No line of the index holds the end of a line. -/
theorem oneLine_lines (h : ∀ m ∈ modules, Text.OneLine m) :
    ∀ l ∈ lines info package modules, Text.OneLine l := by
  have hmodules : ∀ l ∈ modules.flatMap (fun m =>
      [allowance, "pub mod " ++ m ++ ";"]), Text.OneLine l := by
    intro l hl
    obtain ⟨m, hm, hl⟩ := List.mem_flatMap.1 hl
    simp only [List.mem_cons, List.not_mem_nil, or_false] at hl
    rcases hl with rfl | rfl
    · decide +kernel
    · exact (Text.OneLine.append (by decide) (h m hm)).append (by decide)
  simp only [lines, List.forall_mem_append, List.forall_mem_cons,
    List.not_mem_nil, false_implies, implies_true, and_true]
  refine ⟨⟨⟨?_, Text.oneLine_singleLine _, ?_⟩, hmodules⟩, ?_, ?_,
    oneLine_quoted package ?_, ?_, oneLine_quoted info.title ?_, ?_,
    oneLine_quoted info.version ?_⟩
  all_goals decide +kernel

/-- The line about the package declares no module. -/
theorem declaredModule?_package (s : String) :
    declaredModule? (Text.singleLine ("// Package " ++ s)) = none := by
  have hchars : ("// Package " ++ s).toList
      = '/' :: ("/ Package ".toList ++ s.toList) := by
    simp [String.toList_append]
  obtain ⟨more, hmore⟩ := singleLine_slash hchars
  exact declaredModule?_eq_none hmore (by decide)

-- ========================================================= main result

/-- The index declares the modules that it was asked to, in order. -/
theorem declaredModules_indexSource (d : Document) (package : String)
    (h : ∀ m ∈ modules, Text.OneLine m) :
    declaredModules (d.indexSource package modules) = modules := by
  -- the declarations give back the modules, one for each
  have hmodules : (modules.flatMap (fun m =>
      [allowance, "pub mod " ++ m ++ ";"])).filterMap declaredModule?
        = modules := by
    have hallowance : declaredModule? allowance = none := by decide +kernel
    clear h
    induction modules with
    | nil => rfl
    | cons m rest ih =>
        rw [List.flatMap_cons, List.filterMap_append, ih,
          List.filterMap_cons_none hallowance,
          List.filterMap_cons_some (declaredModule?_declaration m)]
        rfl
  -- no other line of the index declares a module
  have hheader : declaredModule? headerLine = none := by decide +kernel
  have hpackage : declaredModule? (Text.singleLine ("// Package " ++ package
      ++ ": " ++ d.info.title ++ " " ++ d.info.version)) = none := by
    simp only [String.append_assoc]
    exact declaredModule?_package _
  have hempty : declaredModule? "" = none := rfl
  have hname : declaredModule? "/// Name of the generated package." = none := by
    decide +kernel
  have htitle : declaredModule? "/// `info.title` of the source document."
      = none := by decide +kernel
  have hversion : declaredModule? "/// `info.version` of the source document."
      = none := by decide +kernel
  have hpackageName : declaredModule?
      ("pub const PACKAGE: &str = " ++ Definition.literal package ++ ";")
        = none := declaredModule?_constant rfl _
  have htitleText : declaredModule?
      ("pub const API_TITLE: &str = " ++ Definition.literal d.info.title ++ ";")
        = none := declaredModule?_constant rfl _
  have hversionText : declaredModule?
      ("pub const API_VERSION: &str = " ++ Definition.literal d.info.version
        ++ ";") = none := declaredModule?_constant rfl _
  rw [declaredModules, Document.indexSource,
    Source.lines_text steps_flat (oneLine_lines h)]
  simp only [lines, List.filterMap_append, hmodules, List.filterMap_cons,
    List.filterMap_nil, hheader, hpackage, hempty, hname, htitle, hversion,
    hpackageName, htitleText, hversionText, List.nil_append, List.append_nil]

end IndexModule

end ApiForge
