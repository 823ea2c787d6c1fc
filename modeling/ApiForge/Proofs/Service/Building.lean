import ApiForge.Proofs.Http.Path
import ApiForge.Proofs.Service.Mediation
import ApiForge.Proofs.Text.Percent
/-!
Matching inverts building a path.

# Patterns and their segments

A text is a name in braces or it is none, and `Segment.ofText` tells which
(`ofText_cases`). So a pattern that is written with proper segments has these
segments (`ofPattern_of_slashed`), however many slashes it is written with.

# Paths that are built

A path is built from a pattern by putting a value in the place of each name,
escaped as far as it must be or further. The route of the pattern takes the
path, and finds the values again (`matching_inverts_building`): the parts of
the path are what was written, and decoding gives back the values.
-/

namespace ApiForge.Service

open ApiForge.Http (Request Path.Slashed Path.segments Path.normalize
  Path.segments_normalize Path.segments_eq)
open ApiForge.Text (Percent.Written)

variable {σ : Type} {segments : List Segment} {value : String → String}
  {parts : List (List Char)} {pattern : String} {request : Request}

-- ================================================ statement vocabulary

namespace Segment

/-- A name in braces. -/
def braced (name : String) : String :=
  "\x7b" ++ name ++ "\x7d"

/-- The text of a segment in a pattern. -/
def text : Segment → String
  | literal t => t
  | capture name => braced name

/-- A segment that a pattern can have: a text that stands for itself, or a name.
Neither holds a slash. -/
def Proper : Segment → Prop
  | literal t => t ≠ "" ∧ '/' ∉ t.toList ∧ ∀ name, t ≠ braced name
  | capture name => '/' ∉ name.toList

/-- The names among segments, in order. -/
def names (segments : List Segment) : List String :=
  segments.filterMap fun segment =>
    match segment with
    | literal _ => none
    | capture name => some name

/-- What stands for a segment in a path: a text itself, and for a name its
value, with escapes. -/
def WrittenAs (value : String → String) : Segment → List Char → Prop
  | literal t, cs => cs = t.toList
  | capture name, cs => Percent.Written (value name) cs

-- ============================================================= patterns

theorem toList_braced (name : String) :
    (braced name).toList = '\x7b' :: (name.toList ++ ['\x7d']) := by
  simp [braced]

/-- A text is a name in braces and means the name, or is none and means
itself. -/
theorem ofText_cases (t : String) :
    (∃ name, t = braced name ∧ ofText t = .capture name)
      ∨ (∀ name, t ≠ braced name) ∧ ofText t = .literal t := by
  unfold ofText
  split
  · rename_i rest hrest
    split
    · rename_i hlast
      refine .inl ⟨_, String.toList_inj.1 ?_, rfl⟩
      rw [hrest, toList_braced, String.toList_ofList,
        List.dropLast_append_getLast? _ hlast]
    · rename_i hlast
      refine .inr ⟨fun name hname => hlast ?_, rfl⟩
      rw [hname, toList_braced] at hrest
      rw [← List.tail_eq_of_cons_eq hrest, List.getLast?_concat]
  · rename_i hopen
    refine .inr ⟨fun name hname => ?_, rfl⟩
    rw [hname, toList_braced] at hopen
    exact hopen _ rfl

theorem ofText_literal {t : String} (h : ∀ name, t ≠ braced name) :
    ofText t = .literal t := by
  rcases ofText_cases t with ⟨name, hname, -⟩ | ⟨-, ht⟩
  · exact absurd hname (h name)
  · exact ht

/-- Names in braces are the same only if the names are. -/
theorem braced_injective {m n : String} (h : braced m = braced n) : m = n := by
  have hlists := congrArg String.toList h
  rw [toList_braced, toList_braced] at hlists
  exact String.toList_inj.1
    (List.append_cancel_right (List.tail_eq_of_cons_eq hlists))

theorem ofText_braced (name : String) : ofText (braced name) = .capture name := by
  rcases ofText_cases (braced name) with ⟨name', hname, ht⟩ | ⟨hnone, -⟩
  · rw [ht, braced_injective hname]
  · exact absurd rfl (hnone name)

/-- A proper segment is read from its text. -/
theorem Proper.ofText_text {s : Segment} (h : s.Proper) : ofText s.text = s := by
  cases s with
  | literal t => exact ofText_literal h.2.2
  | capture name => exact ofText_braced name

/-- The text of a proper segment is a part of a path. -/
theorem Proper.text_part {s : Segment} (h : s.Proper) :
    s.text.toList ≠ [] ∧ '/' ∉ s.text.toList := by
  cases s with
  | literal t => exact ⟨mt String.toList_eq_nil_iff.1 h.1, h.2.1⟩
  | capture name =>
      have hname : '/' ∉ name.toList := h
      simp [text, toList_braced, hname]

/-- A pattern has the segments that it is written with. -/
theorem ofPattern_of_slashed (hproper : ∀ s ∈ segments, s.Proper)
    (h : Path.Slashed (segments.map fun s => s.text.toList) pattern.toList) :
    ofPattern pattern = segments := by
  have hparts : ∀ part ∈ segments.map (fun s => s.text.toList),
      part ≠ [] ∧ '/' ∉ part := by
    intro part hpart
    obtain ⟨s, hs, rfl⟩ := List.mem_map.1 hpart
    exact (hproper s hs).text_part
  rw [ofPattern, Path.segments_normalize, Path.segments_eq, h.pieces hparts,
    List.map_map, List.map_map]
  refine (List.map_congr_left fun s hs => ?_).trans (List.map_id _)
  simp only [Function.comp_apply, String.ofList_toList, id]
  exact (hproper s hs).ofText_text

-- ================================================================ paths

/-- What is written for a segment is a part of a path. -/
theorem WrittenAs.part {s : Segment} {cs : List Char} (h : s.WrittenAs value cs)
    (hs : s.Proper) (hvalue : ∀ name, s = .capture name → value name ≠ "") :
    cs ≠ [] ∧ '/' ∉ cs := by
  cases s with
  | literal t =>
      cases h
      exact hs.text_part
  | capture name =>
      exact ⟨Text.Percent.ne_nil_of_written h (hvalue name rfl),
        Text.Percent.no_slash_of_written h⟩

/-- What is written for proper segments is not empty and has no slash. -/
theorem part_of_written (h : List.Forall₂ (WrittenAs value) segments parts)
    (hproper : ∀ s ∈ segments, s.Proper)
    (hvalue : ∀ n ∈ names segments, value n ≠ "") :
    ∀ part ∈ parts, part ≠ [] ∧ '/' ∉ part := by
  induction h with
  | nil => exact fun part hpart => absurd hpart List.not_mem_nil
  | @cons s cs segments parts hs _ ih =>
      have hrest : ∀ n ∈ names segments, value n ≠ "" := by
        intro n hn
        obtain ⟨segment, hmem, hname⟩ := List.mem_filterMap.1 hn
        exact hvalue n (List.mem_filterMap.2
          ⟨segment, List.mem_cons_of_mem _ hmem, hname⟩)
      refine List.forall_mem_cons.2 ⟨hs.part (hproper s (List.mem_cons_self ..))
        ?_, ih (fun x hx => hproper x (List.mem_cons_of_mem _ hx)) hrest⟩
      rintro name rfl
      exact hvalue name (List.mem_cons_self ..)

/-- Segments capture the values from what is written for them. -/
theorem captures?_written (h : List.Forall₂ (WrittenAs value) segments parts) :
    captures? segments (parts.map String.ofList)
      = some ((names segments).map fun n => (n, value n)) := by
  induction h with
  | nil => rfl
  | @cons s cs segments parts hs _ ih =>
      cases s with
      | literal t =>
          cases hs
          rw [List.map_cons, captures?, String.ofList_toList, if_pos rfl, ih]
          rfl
      | capture name =>
          rw [List.map_cons, captures?, ih, Text.Percent.decode_written hs]
          rfl

/-- A name that is captured is found with its value. -/
theorem lookup_values (value : String → String) {names : List String}
    {n : String} (h : n ∈ names) :
    (names.map fun n => (n, value n)).lookup n = some (value n) := by
  induction names with
  | nil => exact absurd h List.not_mem_nil
  | cons m names ih =>
      rw [List.map_cons, List.lookup_cons]
      by_cases hnm : n = m
      · rw [hnm, beq_self_eq_true]
      · rw [beq_eq_false_iff_ne.2 hnm]
        exact ih ((List.mem_cons.1 h).resolve_left hnm)

end Segment

-- ========================================================== main result

/-- A pattern is written with proper segments, each name is given a value that
is not empty, and a path is written with the texts and, in the place of the
names, the values with escapes. Both may have any number of slashes where one
can stand. Then the route of the pattern takes a request for the path, and
captures the names with their values, in the order of the pattern; in a service
where no earlier route takes the request, its handler runs on a call with these
captures, each of which is found under its name. -/
theorem matching_inverts_building
    (hproper : ∀ s ∈ segments, s.Proper)
    (hpattern : Path.Slashed (segments.map fun s => s.text.toList)
      pattern.toList)
    (hvalue : ∀ n ∈ Segment.names segments, value n ≠ "")
    (hparts : List.Forall₂ (Segment.WrittenAs value) segments parts)
    (hpath : Path.Slashed parts request.uri.path.toList) :
    Router.captures? ⟨request.method, pattern⟩ request
        = some ((Segment.names segments).map fun n => (n, value n))
      ∧ ∀ (before after : List (Route σ)) (handler : Handler σ)
          (layers : List (Layer σ)),
          (∀ other ∈ before, ¬ other.key.Fits request) →
          let key : RouteKey := ⟨request.method, pattern⟩
          let call : Call :=
            { request, route := some key,
              captures := (Segment.names segments).map fun n => (n, value n) }
          Router.answer ⟨before ++ ⟨key, handler⟩ :: after, layers⟩ request
              = Router.wrap layers handler call
            ∧ ∀ n ∈ Segment.names segments, call.capture? n = some (value n) := by
  have hproperParts := Segment.part_of_written hparts hproper hvalue
  have hpattern := Segment.ofPattern_of_slashed hproper hpattern
  have hpath : Path.segments (Path.normalize request.uri.path)
      = parts.map String.ofList := by
    rw [Path.segments_normalize, Path.segments_eq, hpath.pieces hproperParts]
  -- pattern and path come apart into the same segments again
  have hcaptures : Router.captures? ⟨request.method, pattern⟩ request
      = some ((Segment.names segments).map fun n => (n, value n)) := by
    rw [Router.captures?, if_pos rfl, hpattern, hpath]
    exact Segment.captures?_written hparts
  refine ⟨hcaptures, fun before after handler layers hbefore => ⟨?_, ?_⟩⟩
  · obtain ⟨hfits, hbindings⟩ := captures?_eq_some_iff.1 hcaptures
    rw [Router.answer, find?_eq_some rfl hbefore hfits, ← hbindings]
  · intro n hn
    exact Segment.lookup_values value hn

-- a pet with a slash, a blank and a percent sign in its name

open Text.Percent (IsDigit OctetAs CharAs)

/-- The segments of the path of a pet. -/
def petSegments : List Segment :=
  [.literal "pets", .capture "petId", .literal "toys"]

/-- The name of the pet. -/
def oddName : String := "a/b %é"

/-- How the name is written: the blank and the accented letter are escaped as
well, and the latter with digits in both cases. -/
def oddParts : List (List Char) :=
  [['a'], ['%', '2', 'F'], ['b'], ['%', '2', '0'], ['%', '2', '5'],
   ['%', 'c', '3', '%', 'A', '9']]

/-- The odd name is written with escapes for its slash, blank, percent sign and
accent. -/
theorem written_oddName : Percent.Written oddName oddParts.flatten := by
  -- a sign of one octet is written as one escape
  have hone {c : Char} {b : UInt8} {high low : Char}
      (hc : String.utf8EncodeChar c = [b])
      (h : IsDigit (b.toNat / 16) high ∧ IsDigit (b.toNat % 16) low) :
      CharAs c ['%', high, low] := by
    have hescape : OctetAs b ['%', high, low] := .escape h.1 h.2
    have hescapes : List.Forall₂ OctetAs (String.utf8EncodeChar c)
        [['%', high, low]] := hc ▸ .cons hescape .nil
    exact .escaped hescapes
  have hslash : CharAs '/' ['%', '2', 'F'] :=
    hone (b := 0x2F) (by decide) (by decide)
  have hblank : CharAs ' ' ['%', '2', '0'] :=
    hone (b := 0x20) (by decide) (by decide)
  have hpercent : CharAs '%' ['%', '2', '5'] :=
    hone (b := 0x25) (by decide) (by decide)
  have haccent : CharAs 'é' ['%', 'c', '3', '%', 'A', '9'] := by
    have hfirst : OctetAs 0xC3 ['%', 'c', '3'] :=
      .escape (by decide) (by decide)
    have hsecond : OctetAs 0xA9 ['%', 'A', '9'] :=
      .escape (by decide) (by decide)
    have hescapes : List.Forall₂ OctetAs (String.utf8EncodeChar 'é')
        [['%', 'c', '3'], ['%', 'A', '9']] := by
      have hoctets : String.utf8EncodeChar 'é' = [0xC3, 0xA9] := by decide
      rw [hoctets]
      exact .cons hfirst (.cons hsecond .nil)
    exact .escaped hescapes
  have hchars : oddName.toList = ['a', '/', 'b', ' ', '%', 'é'] := by decide
  refine ⟨oddParts, ?_, rfl⟩
  rw [hchars]
  exact .cons (.plain (by decide) (by decide)) <| .cons hslash <|
    .cons (.plain (by decide) (by decide)) <| .cons hblank <|
    .cons hpercent <| .cons haccent .nil

/-- A request for the toys of the pet, with slashes in front, between the parts
and behind them. -/
def toysRequest : Request where
  method := ⟨"GET"⟩
  uri := ⟨"//pets/a%2Fb%20%25%c3%A9//toys/", none⟩

/-- The route takes the request, and the pet is found under its name. -/
theorem matching_inverts_building_odd :
    (∀ s ∈ petSegments, s.Proper)
      ∧ Path.Slashed (petSegments.map fun s => s.text.toList)
        "/pets/{petId}/toys".toList
      ∧ (∀ n ∈ Segment.names petSegments, oddName ≠ "")
      ∧ Router.captures? ⟨⟨"GET"⟩, "/pets/{petId}/toys"⟩ toysRequest
        = some [("petId", oddName)]
      ∧ ∀ handler : Handler Unit,
          Router.answer ⟨[⟨⟨⟨"GET"⟩, "/pets/{petId}/toys"⟩, handler⟩], []⟩
              toysRequest
            = handler
              { request := toysRequest,
                route := some ⟨⟨"GET"⟩, "/pets/{petId}/toys"⟩,
                captures := [("petId", oddName)] } := by
  have hliteral {t : String} (h : t ≠ "" ∧ '/' ∉ t.toList
      ∧ t.toList.head? ≠ some '\x7b') : (Segment.literal t).Proper := by
    refine ⟨h.1, h.2.1, fun name hname => h.2.2 ?_⟩
    rw [hname, Segment.toList_braced]
    rfl
  have hcapture : (Segment.capture "petId").Proper := by
    show '/' ∉ "petId".toList
    decide
  have hproper : ∀ s ∈ petSegments, s.Proper := by
    simp only [petSegments, List.forall_mem_cons]
    exact ⟨hliteral (by decide), hcapture, hliteral (by decide),
      fun s hs => absurd hs List.not_mem_nil⟩
  -- pattern and path are taken apart at their slashes
  have hpattern : Path.Slashed (petSegments.map fun s => s.text.toList)
      "/pets/{petId}/toys".toList := by
    have hchars : "/pets/{petId}/toys".toList
        = '/' :: ("pets".toList ++ '/' :: ("{petId}".toList ++ '/'
          :: "toys".toList)) := by decide
    rw [hchars]
    exact .slash (.part _ (.part _ (.last _)))
  have hpath : Path.Slashed ["pets".toList, oddParts.flatten, "toys".toList]
      toysRequest.uri.path.toList := by
    have hchars : toysRequest.uri.path.toList
        = '/' :: '/' :: ("pets".toList ++ '/' :: (oddParts.flatten
          ++ '/' :: '/' :: ("toys".toList ++ '/' :: []))) := by decide
    rw [hchars]
    exact .slash (.slash (.part _ (.part _ (.slash (.part _ .empty)))))
  have hname : oddName ≠ "" := by decide
  have hparts : List.Forall₂ (Segment.WrittenAs fun _ => oddName) petSegments
      ["pets".toList, oddParts.flatten, "toys".toList] :=
    .cons rfl (.cons written_oddName (.cons rfl .nil))
  obtain ⟨hcaptures, hanswer⟩ := matching_inverts_building (σ := Unit)
    hproper hpattern (fun _ _ => hname) hparts hpath
  exact ⟨hproper, hpattern, fun _ _ => hname, hcaptures, fun handler =>
    (hanswer [] [] handler [] fun other hother =>
      absurd hother List.not_mem_nil).1⟩

end ApiForge.Service
