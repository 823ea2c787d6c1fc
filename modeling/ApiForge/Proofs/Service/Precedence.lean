import ApiForge.Proofs.Artifact.FirstCome
import ApiForge.Proofs.Artifact.Routes
import ApiForge.Proofs.Service.Building
import Mathlib.Data.String.Basic
/-!
Texts take precedence over names.

A service takes the first route that fits, and no route is more special than
another. But the routes of a document are registered in path order, and an
opening brace comes behind every character that the texts of tidy paths begin
with. So of two paths that agree up to some segment, and there have a text and a
name, the one with the text is registered first (`lt_of_segments`). Whatever
route a request takes is then preferred, segment by segment, to the others that
fit (`literals_take_precedence`).
-/

namespace ApiForge

open Http (Method Request)
open Http.Path (Slashed pieces segments normalize segments_normalize
  segments_eq slashed_pieces pieces_slash)
open Service (Call Handler Layer Route RouteKey Router Segment)
open Service.Segment (braced ofText)
open Text (Utf8.bytes)

variable {σ : Type} {d : Document}

-- ================================================ statement vocabulary

/-- A segment of a path that is a name in braces. -/
def IsParameter (s : String) : Prop :=
  ∃ name, s = braced name

/-- Two paths agree up to some segment, and there the first of them has a text
or both have names. -/
def Preferred (path other : String) : Prop :=
  ∃ before s t rest rest', segments path = before ++ s :: rest
    ∧ segments other = before ++ t :: rest' ∧ s ≠ t
    ∧ (¬ IsParameter s ∨ IsParameter s ∧ IsParameter t)

namespace Document

/-- The paths of a document begin with a slash and hold no two slashes in a row;
no two of them have the same segments; and the texts among the segments begin
with an octet that comes before the opening brace. -/
structure TidyPaths (d : Document) : Prop where
  slash : ∀ e ∈ d.pathTable, e.1.toList.head? = some '/'
  single : ∀ e ∈ d.pathTable, ¬ ['/', '/'] <:+: e.1.toList
  distinct : (d.pathTable.map fun e => segments e.1).Nodup
  texts : ∀ e ∈ d.pathTable, ∀ s ∈ segments e.1, ¬ IsParameter s →
    ∀ b ∈ (Utf8.bytes s).head?, b < 0x7B

/-- The route of an operation. -/
def routeOf (handlers : Endpoint → Handler σ) (e : Endpoint) : Route σ :=
  ⟨⟨.ofVerb e.verb, e.path⟩, handlers e⟩

/-- A service of a document: its operations are registered in their order. -/
def served (d : Document) (handlers : Endpoint → Handler σ)
    (layers : List (Layer σ)) : Router σ :=
  d.operations.foldl
    (fun r e => r.route (.ofVerb e.verb) e.path (handlers e)) { layers }

/-- Registering one operation after the other adds their routes at the end. -/
theorem served_eq (d : Document) (handlers : Endpoint → Handler σ)
    (layers : List (Layer σ)) :
    d.served handlers layers
      = { routes := d.operations.map (routeOf handlers), layers } := by
  have step (es : List Endpoint) (routes : List (Route σ)) :
      es.foldl (fun r e => r.route (.ofVerb e.verb) e.path (handlers e))
          ({ routes, layers } : Router σ)
        = { routes := routes ++ es.map (routeOf handlers), layers } := by
    induction es generalizing routes with
    | nil => rw [List.map_nil, List.append_nil]; rfl
    | cons e es ih =>
        rw [List.foldl_cons, Router.route, ih, List.map_cons,
          List.append_assoc]
        rfl
  exact step d.operations []

-- ========================================================= order of paths

/-- No operation stands behind one with a later path. -/
theorem pairwise_operations (h : d.pathTable.Sorted) :
    d.operations.Pairwise fun e e' => ¬ e'.path < e.path := by
  refine List.pairwise_flatMap.2
    ⟨fun e _ => ?_, h.imp fun {e e'} hlt x hx y hy => ?_⟩
  · exact List.pairwise_map.2 (List.pairwise_of_forall
      fun _ _ => String.lt_irrefl _)
  · obtain ⟨o, -, rfl⟩ := List.mem_map.1 hx
    obtain ⟨o', -, rfl⟩ := List.mem_map.1 hy
    exact fun hgt => String.lt_irrefl _ (String.lt_trans hlt hgt)

/-- The path of an operation is one of the document's. -/
theorem exists_path {e : Endpoint} (he : e ∈ d.operations) :
    ∃ x ∈ d.pathTable, x.1 = e.path := by
  obtain ⟨x, hx, hmem⟩ := List.mem_flatMap.1 he
  obtain ⟨o, -, rfl⟩ := List.mem_map.1 hmem
  exact ⟨x, hx, rfl⟩

end Document

/-- A path that begins with a slash and holds no two in a row is written with
one slash before each segment, and perhaps one at its end. -/
theorem exists_tail {parts : List (List Char)} {cs : List Char}
    (h : Slashed parts cs) (hsingle : ¬ ['/', '/'] <:+: '/' :: cs) :
    ∃ tail, '/' :: cs = parts.flatMap ('/' :: ·) ++ tail := by
  induction h with
  | empty => exact ⟨['/'], rfl⟩
  | slash _ _ => exact absurd ⟨[], _, rfl⟩ hsingle
  | last part => exact ⟨[], by simp⟩
  | @part parts cs part _ ih =>
      obtain ⟨tail, htail⟩ := ih fun hdouble => hsingle
        (hdouble.trans ⟨'/' :: part, [], by simp⟩)
      refine ⟨tail, ?_⟩
      rw [List.flatMap_cons, List.append_assoc, ← htail]
      rfl

/-- Of two such paths that agree up to some segment, the one whose segment begins
with the smaller character comes first. -/
theorem lt_of_segments {path other : String} {before rest rest' : List String}
    {s t : String} {a b : Char} {as bs : List Char}
    (hslash : path.toList.head? = some '/')
    (hsingle : ¬ ['/', '/'] <:+: path.toList)
    (hslash' : other.toList.head? = some '/')
    (hsingle' : ¬ ['/', '/'] <:+: other.toList)
    (hpath : segments path = before ++ s :: rest)
    (hother : segments other = before ++ t :: rest')
    (hs : s.toList = a :: as) (ht : t.toList = b :: bs) (hab : a < b) :
    path < other := by
  -- what stands up to the segments is the same
  have hwritten {p x : String} {behind : List String} {c : Char}
      {cs : List Char} (hslash : p.toList.head? = some '/')
      (hsingle : ¬ ['/', '/'] <:+: p.toList)
      (hp : segments p = before ++ x :: behind) (hx : x.toList = c :: cs) :
      ∃ tail, p.toList
        = before.flatMap (fun y => '/' :: y.toList) ++ '/' :: c :: tail := by
    obtain ⟨ds, hds⟩ := List.head?_eq_some_iff.1 hslash
    rw [hds] at hsingle
    obtain ⟨tail, htail⟩ := exists_tail (slashed_pieces ds) hsingle
    have hpieces : pieces ds = (before ++ x :: behind).map String.toList := by
      rw [← hp, segments_eq, hds, pieces_slash, List.map_map]
      refine ((List.map_congr_left fun y _ => ?_).trans (List.map_id _)).symm
      exact String.toList_ofList
    refine ⟨cs ++ (behind.flatMap fun y => '/' :: y.toList) ++ tail, ?_⟩
    rw [hds, htail, hpieces]
    simp [List.flatMap_map, hx]
  obtain ⟨tail, hp⟩ := hwritten hslash hsingle hpath hs
  obtain ⟨tail', hp'⟩ := hwritten hslash' hsingle' hother ht
  rw [String.lt_iff_toList_lt, hp, hp']
  refine List.append_left_lt ?_
  exact List.cons_lt_cons_iff.2 (.inr ⟨rfl, List.cons_lt_cons_iff.2 (.inl hab)⟩)

-- ==================================================== the first difference

/-- Two different lists of one length agree up to some member. -/
theorem exists_first_difference {α : Type} {l r : List α}
    (hlength : l.length = r.length) (hne : l ≠ r) :
    ∃ before a b rest rest', l = before ++ a :: rest
      ∧ r = before ++ b :: rest' ∧ a ≠ b := by
  induction l generalizing r with
  | nil => exact absurd (List.length_eq_zero_iff.1 hlength.symm).symm hne
  | cons a l ih =>
      cases r with
      | nil => cases hlength
      | cons b r =>
          by_cases hab : a = b
          · subst hab
            have hlength : l.length = r.length := Nat.succ.inj hlength
            obtain ⟨before, x, y, rest, rest', rfl, rfl, hxy⟩ :=
              ih hlength fun heq => hne (heq ▸ rfl)
            exact ⟨a :: before, x, y, rest, rest', rfl, rfl, hxy⟩
          · exact ⟨[], a, b, l, r, rfl, rfl, hab⟩

/-- Members of related lists that stand behind equally many others are
related. -/
theorem rel_of_forall₂_append {α β : Type} {R : α → β → Prop} {l : List α}
    {r : List β} {a : α} {b : β} {as : List α} {bs : List β}
    (hlength : l.length = r.length)
    (h : List.Forall₂ R (l ++ a :: as) (r ++ b :: bs)) : R a b := by
  induction l generalizing r with
  | nil =>
      cases List.length_eq_zero_iff.1 hlength.symm
      exact (List.forall₂_cons.1 h).1
  | cons x l ih =>
      cases r with
      | nil => cases hlength
      | cons y r => exact ih (Nat.succ.inj hlength) (List.forall₂_cons.1 h).2

namespace Document

/-- A text among the segments of tidy paths begins with a character that comes
before the opening brace. -/
theorem TidyPaths.text_lt (h : d.TidyPaths) {e : String × PathItem}
    (he : e ∈ d.pathTable) {s : String} (hs : s ∈ segments e.1)
    (htext : ¬ IsParameter s) :
    ∃ c cs, s.toList = c :: cs ∧ c < '\x7b' := by
  obtain ⟨piece, hpiece, rfl⟩ := List.mem_map.1 hs
  obtain ⟨hnonempty, -⟩ := Http.Path.of_mem_pieces hpiece
  obtain ⟨c, cs, rfl⟩ := List.exists_cons_of_ne_nil hnonempty
  have hchars : (String.ofList (c :: cs)).toList = c :: cs :=
    String.toList_ofList
  obtain ⟨b, hb⟩ := Text.Utf8.exists_head_bytes hchars
  have hlt := UInt8.lt_iff_toNat_lt.1 (h.texts e he _ hs htext b hb)
  have hnumber := Text.Utf8.toNat_of_head_bytes hchars hb
    (UInt8.lt_iff_toNat_lt.2 (Nat.lt_trans hlt (by decide)))
  refine ⟨c, cs, hchars, ?_⟩
  rw [← hnumber] at hlt
  exact hlt

/-- Of two tidy paths with equally many segments, the earlier is preferred. -/
theorem TidyPaths.preferred (h : d.TidyPaths) {e e' : String × PathItem}
    (he : e ∈ d.pathTable) (he' : e' ∈ d.pathTable)
    (hlength : (segments e.1).length = (segments e'.1).length)
    (hne : e.1 ≠ e'.1) (hearlier : ¬ e'.1 < e.1) : Preferred e.1 e'.1 := by
  have hdifferent : segments e.1 ≠ segments e'.1 := by
    intro hsame
    have heq := List.inj_on_of_nodup_map h.distinct he he' hsame
    exact hne (congrArg Prod.fst heq)
  obtain ⟨before, s, t, rest, rest', hs, ht, hst⟩ :=
    exists_first_difference hlength hdifferent
  refine ⟨before, s, t, rest, rest', hs, ht, hst, ?_⟩
  by_cases hname : IsParameter s
  · refine .inr ⟨hname, by_contra fun htext => hearlier ?_⟩
    -- a text where the earlier path has a name would have come first
    have hmem : t ∈ segments e'.1 := by
      rw [ht]
      exact List.mem_append_right _ (List.mem_cons_self ..)
    obtain ⟨c, cs, hc, hlt⟩ := h.text_lt he' hmem htext
    obtain ⟨name, rfl⟩ := hname
    exact lt_of_segments (h.slash e' he') (h.single e' he') (h.slash e he)
      (h.single e he) ht hs hc (Service.Segment.toList_braced name) hlt
  · exact .inl hname

-- ===================================================== the route taken

variable {handlers : Endpoint → Handler σ} {layers : List (Layer σ)}
  {request : Request} {route : Route σ} {captures : List (String × String)}
  {e : Endpoint}

/-- A path fits as many parts as it has segments. -/
theorem length_segments_of_fits (h : (routeOf handlers e).key.Fits request) :
    (segments e.path).length
      = (segments (normalize request.uri.path)).length := by
  have hlength := h.2.length_eq
  rw [Segment.ofPattern, List.length_map] at hlength
  rw [← hlength]
  exact congrArg List.length (segments_normalize e.path).symm

/-- The route that is taken is that of an operation that fits, and no operation
that fits has an earlier path. -/
theorem exists_first_operation (hsorted : d.pathTable.Sorted)
    (h : (d.served handlers layers).find? request = some (route, captures)) :
    ∃ e ∈ d.operations, route = routeOf handlers e
      ∧ (routeOf handlers e).key.Fits request
      ∧ captures = (routeOf handlers e).key.bindings request
      ∧ ∀ e' ∈ d.operations, (routeOf handlers e').key.Fits request →
          ¬ e'.path < e.path := by
  rw [served_eq] at h
  obtain ⟨before, found, after, hroutes, hfound, hbefore⟩ :=
    List.findSome?_eq_some_iff.1 h
  obtain ⟨captured, hcaptured, hpair⟩ := Option.map_eq_some_iff.1 hfound
  obtain ⟨rfl, rfl⟩ := Prod.mk.inj hpair
  obtain ⟨hfits, hbindings⟩ := Service.captures?_eq_some_iff.1 hcaptured
  -- routes stand in the order of the operations, and these in that of their paths
  obtain ⟨es, rest, hoperations, rfl, hrest⟩ := List.map_eq_append_iff.1 hroutes
  obtain ⟨e, es', rfl, rfl, -⟩ := List.map_eq_cons_iff.1 hrest
  have hmem : e ∈ d.operations := by
    rw [hoperations]
    exact List.mem_append_right _ (List.mem_cons_self ..)
  refine ⟨e, hmem, rfl, hfits, hbindings, fun e' he' hfits' => ?_⟩
  have hpairwise := pairwise_operations hsorted
  rw [hoperations] at he' hpairwise
  rcases List.mem_append.1 he' with he' | he'
  · have hnone := hbefore _ (List.mem_map_of_mem he')
    rw [Option.map_eq_none_iff] at hnone
    rw [Service.captures?_eq_some_iff.2 ⟨hfits', rfl⟩] at hnone
    cases hnone
  · rcases List.mem_cons.1 he' with rfl | he'
    · exact String.lt_irrefl _
    · exact (List.pairwise_cons.1 (List.pairwise_append.1 hpairwise).2.1).1 e' he'

/-- Where some operation fits, a route is taken. -/
theorem exists_find? (layers : List (Layer σ)) (he : e ∈ d.operations)
    (hfits : (routeOf handlers e).key.Fits request) :
    ∃ route captures, (d.served handlers layers).find? request
      = some (route, captures) := by
  cases hfind : (d.served handlers layers).find? request with
  | some found => exact ⟨found.1, found.2, rfl⟩
  | none =>
      rw [served_eq] at hfind
      have hnone := List.findSome?_eq_none_iff.1 hfind _
        (List.mem_map_of_mem he)
      rw [Option.map_eq_none_iff] at hnone
      rw [Service.captures?_eq_some_iff.2 ⟨hfits, rfl⟩] at hnone
      cases hnone

/-- A path without names fits its own segments, and nothing is captured. -/
theorem fits_of_texts (handlers : Endpoint → Handler σ)
    (htexts : ∀ s ∈ segments e.path, ¬ IsParameter s)
    (hmethod : request.method = .ofVerb e.verb)
    (hpath : segments request.uri.path = segments e.path) :
    (routeOf handlers e).key.Fits request
      ∧ (routeOf handlers e).key.bindings request = [] := by
  have hpattern : Segment.ofPattern e.path
      = (segments e.path).map Segment.literal := by
    rw [Segment.ofPattern, segments_normalize]
    refine List.map_congr_left fun s hs => ?_
    exact Service.Segment.ofText_literal fun name hname =>
      htexts s hs ⟨name, hname⟩
  refine ⟨⟨hmethod.symm, ?_⟩, ?_⟩
  · show List.Forall₂ Segment.Fits (Segment.ofPattern e.path) _
    rw [hpattern, segments_normalize, hpath, List.forall₂_map_left_iff,
      List.forall₂_same]
    exact fun s _ => rfl
  · show Segment.bindings (Segment.ofPattern e.path) _ = []
    rw [hpattern, Segment.bindings, List.filterMap_eq_nil_iff]
    rintro ⟨segment, part⟩ hmem
    obtain ⟨s, -, rfl⟩ := List.mem_map.1 (List.of_mem_zip hmem).1
    rfl

/-- Where a path without names is asked for, no other path that fits is
preferred to it. -/
theorem not_preferred_of_texts {other : Endpoint}
    (htexts : ∀ s ∈ segments e.path, ¬ IsParameter s)
    (hpath : segments request.uri.path = segments e.path)
    (hfits : (routeOf handlers other).key.Fits request) :
    ¬ Preferred other.path e.path := by
  rintro ⟨before, s, t, rest, rest', hs, ht, hst, hprefers⟩
  have hmem : t ∈ segments e.path := by
    rw [ht]
    exact List.mem_append_right _ (List.mem_cons_self ..)
  have htext : ¬ IsParameter s :=
    hprefers.elim id fun hboth => absurd hboth.2 (htexts t hmem)
  -- both paths fit the same parts, so they agree where one is preferred
  have hsegments : List.Forall₂ Segment.Fits
      (before.map ofText ++ ofText s :: rest.map ofText)
      (before ++ t :: rest') := by
    have hforall := hfits.2
    rw [segments_normalize, hpath, ht] at hforall
    have hpattern : Segment.ofPattern other.path
        = before.map ofText ++ ofText s :: rest.map ofText := by
      rw [Segment.ofPattern, segments_normalize, hs, List.map_append,
        List.map_cons]
    exact hpattern ▸ hforall
  have hfit := rel_of_forall₂_append (List.length_map ofText) hsegments
  rw [Service.Segment.ofText_literal fun name hname => htext ⟨name, hname⟩]
    at hfit
  exact hst hfit

/-- Different verbs have different methods. -/
theorem ofVerb_injective {v w : Verb} (h : Method.ofVerb v = .ofVerb w) :
    v = w := by
  have hname := congrArg (fun m : Method => Verb.ofName? m.name) h
  have hread (v : Verb) : Verb.ofName? (Method.ofVerb v).name = some v :=
    SecurityModule.ofName?_name v
  exact Option.some.inj ((hread v).symm.trans (hname.trans (hread w)))

/-- Whatever route is taken, its path is preferred to that of any other
operation that fits. -/
theorem preferred_of_find? (hsorted : d.pathTable.Sorted) (h : d.TidyPaths)
    (hfind : (d.served handlers layers).find? request = some (route, captures))
    (he : e ∈ d.operations) (hfits : (routeOf handlers e).key.Fits request)
    (hne : e.path ≠ route.key.pattern) :
    Preferred route.key.pattern e.path := by
  obtain ⟨first, hfirst, rfl, hfitsFirst, -, hearliest⟩ :=
    exists_first_operation hsorted hfind
  obtain ⟨x, hx, hxpath⟩ := exists_path hfirst
  obtain ⟨y, hy, hypath⟩ := exists_path he
  have hlength : (segments x.1).length = (segments y.1).length := by
    rw [hxpath, hypath, length_segments_of_fits hfitsFirst,
      length_segments_of_fits hfits]
  have hdifferent : x.1 ≠ y.1 := by
    rw [hxpath, hypath]
    exact hne.symm
  have hearlier : ¬ y.1 < x.1 := by
    rw [hxpath, hypath]
    exact hearliest e he hfits
  have hpreferred := h.preferred hx hy hlength hdifferent hearlier
  rw [hxpath, hypath] at hpreferred
  exact hpreferred

/-- A request for a path without names takes the route of its operation. -/
theorem find?_of_texts (hsorted : d.pathTable.Sorted) (h : d.TidyPaths)
    (he : e ∈ d.operations) (htexts : ∀ s ∈ segments e.path, ¬ IsParameter s)
    (hmethod : request.method = .ofVerb e.verb)
    (hpath : segments request.uri.path = segments e.path) :
    (d.served handlers layers).find? request
      = some (routeOf handlers e, []) := by
  obtain ⟨hfits, hbindings⟩ := fits_of_texts handlers htexts hmethod hpath
  obtain ⟨route, captures, hfind⟩ := exists_find? layers he hfits
  obtain ⟨first, hfirst, hroute, hfitsFirst, hcaptures, -⟩ :=
    exists_first_operation hsorted hfind
  -- no other path can have been preferred
  have hsame : e.path = first.path := by
    by_contra hne
    rw [hroute] at hfind
    have hpreferred := preferred_of_find? hsorted h hfind he hfits hne
    exact not_preferred_of_texts htexts hpath hfitsFirst hpreferred
  have hverb : first.verb = e.verb :=
    ofVerb_injective (hfitsFirst.1.trans hmethod)
  have heq : first = e :=
    List.inj_on_of_nodup_map (nodup_operations hsorted) hfirst he
      (Prod.ext hverb hsame.symm)
  rw [hfind, hroute, hcaptures, heq, hbindings]

/-- Where the operations of a document with tidy paths are registered in their
order, as in a router that is generated, a request takes a route whose path is
preferred to that of any other operation that fits. A request for a path without
names is answered by its own operation. The table of paths is sorted in every
document that is loaded (`ordered_of_load`). -/
theorem literals_take_precedence (hsorted : d.pathTable.Sorted)
    (htidy : d.TidyPaths) (handlers : Endpoint → Handler σ)
    (layers : List (Layer σ)) :
    (∀ c m, d.catalog = .ok c → ServerModule.ofCatalog c = .ok m →
        ServerModule.registrations m.steps
          = d.operations.map fun e => (e.verb, Definition.literal e.path))
      ∧ (∀ request route captures,
          (d.served handlers layers).find? request = some (route, captures) →
          ∀ e ∈ d.operations, (routeOf handlers e).key.Fits request →
            e.path ≠ route.key.pattern → Preferred route.key.pattern e.path)
      ∧ ∀ e ∈ d.operations, (∀ s ∈ segments e.path, ¬ IsParameter s) →
          ∀ request : Request, request.method = .ofVerb e.verb →
            segments request.uri.path = segments e.path →
            (d.served handlers layers).answer request
              = Router.wrap layers (handlers e)
                { request, route := some ⟨.ofVerb e.verb, e.path⟩ } := by
  refine ⟨fun c m hc hm => ?_, ?_, ?_⟩
  · rw [ServerModule.registrations_ofCatalog hm, document_of_catalog hc]
  · intro request route captures hfind e he hfits hne
    exact preferred_of_find? hsorted htidy hfind he hfits hne
  · intro e he htexts request hmethod hpath
    rw [Router.answer, find?_of_texts hsorted htidy he htexts hmethod hpath,
      served_eq]
    rfl

-- a path with a name, and one with a text in its place

/-- Answers nothing but that it was asked. -/
def readPet : Operation where
  responses := [("204", .inline { description := "Seen." })]

def itemOfPet : PathItem :=
  PathItem.withOperation {} .get (some readPet)

/-- A service for the pet that is one's own and for every other. -/
def ownPet : Document where
  openapi := "3.1.0"
  info := { title := "Pets", version := "1" }
  paths := some [("/pets/mine", itemOfPet), ("/pets/{petId}", itemOfPet)]

def readMine : Endpoint :=
  ⟨"/pets/mine", .get, itemOfPet, readPet⟩

def readAny : Endpoint :=
  ⟨"/pets/{petId}", .get, itemOfPet, readPet⟩

/-- A request for the pet that is one's own. -/
def requestMine : Request where
  method := .ofVerb .get
  uri := ⟨"/pets/mine", none⟩

theorem not_isParameter_of_head {s : String} {c : Char}
    (h : s.toList.head? = some c) (hc : c ≠ '\x7b') : ¬ IsParameter s := by
  rintro ⟨name, rfl⟩
  rw [Service.Segment.toList_braced] at h
  exact hc (Option.some.inj h).symm

theorem isParameter_petId : IsParameter "{petId}" :=
  ⟨"petId", by decide⟩

/-- The paths of the two operations are tidy. -/
theorem tidyPaths_ownPet : ownPet.TidyPaths where
  slash := by decide
  single := by decide
  distinct := by decide
  texts := by
    have hsegments : ownPet.pathTable.flatMap (fun e => segments e.1)
        = ["pets", "mine", "pets", "{petId}"] := by decide
    intro e he s hs htext
    have hmem : s ∈ ownPet.pathTable.flatMap fun e => segments e.1 :=
      List.mem_flatMap.2 ⟨e, he, hs⟩
    rw [hsegments] at hmem
    have hfirst : ∃ b, (Text.Utf8.encode s.toList).head? = some b ∧ b < 0x7B := by
      simp only [List.mem_cons, List.not_mem_nil, or_false] at hmem
      rcases hmem with rfl | rfl | rfl | rfl
      · exact ⟨0x70, by decide, by decide⟩
      · exact ⟨0x6D, by decide, by decide⟩
      · exact ⟨0x70, by decide, by decide⟩
      · exact absurd isParameter_petId htext
    obtain ⟨first, hhead, hlt⟩ := hfirst
    intro b hb
    rw [Text.Utf8.bytes_eq, hhead] at hb
    exact Option.some.inj hb ▸ hlt

/-- The path with a name fits the request as well, and the one without answers
it. -/
theorem literals_take_precedence_mine :
    ownPet.pathTable.Sorted ∧ ownPet.TidyPaths
      ∧ ownPet.operations = [readMine, readAny]
      ∧ ∀ handlers : Endpoint → Handler Unit,
        (routeOf handlers readAny).key.Fits requestMine
          ∧ Preferred "/pets/mine" "/pets/{petId}"
          ∧ (ownPet.served handlers []).answer requestMine
            = handlers readMine
              { request := requestMine,
                route := some ⟨.ofVerb .get, "/pets/mine"⟩ } := by
  have hsorted : ownPet.pathTable.Sorted := by
    rw [Table.Sorted]
    decide
  have hoperations : ownPet.operations = [readMine, readAny] := rfl
  have hmine : readMine ∈ ownPet.operations := by
    rw [hoperations]
    exact List.mem_cons_self ..
  have hany : readAny ∈ ownPet.operations := by
    rw [hoperations]
    exact List.mem_cons_of_mem _ (List.mem_cons_self ..)
  have htexts : ∀ s ∈ segments readMine.path, ¬ IsParameter s := by
    have hsegments : segments readMine.path = ["pets", "mine"] := by decide
    rw [hsegments]
    rintro s (_ | ⟨_, _ | ⟨_, ⟨⟩⟩⟩)
    · exact not_isParameter_of_head (c := 'p') (by decide) (by decide)
    · exact not_isParameter_of_head (c := 'm') (by decide) (by decide)
  have hpath : segments requestMine.uri.path = segments readMine.path := rfl
  refine ⟨hsorted, tidyPaths_ownPet, hoperations, fun handlers => ?_⟩
  obtain ⟨-, hpreferred, hanswer⟩ :=
    literals_take_precedence hsorted tidyPaths_ownPet handlers []
  -- the path with a name fits, too, but its name stands where the other has a text
  have hfits : (routeOf handlers readAny).key.Fits requestMine := by
    have hpattern : Segment.ofPattern "/pets/{petId}"
        = [.literal "pets", .capture "petId"] := by decide
    have hparts : segments (normalize requestMine.uri.path)
        = ["pets", "mine"] := by decide
    refine ⟨rfl, ?_⟩
    show List.Forall₂ Segment.Fits (Segment.ofPattern "/pets/{petId}") _
    rw [hpattern, hparts]
    exact .cons rfl (.cons trivial .nil)
  have hdifferent : "/pets/{petId}" ≠ "/pets/mine" := by decide
  have hfind : (ownPet.served handlers []).find? requestMine
      = some (routeOf handlers readMine, []) :=
    find?_of_texts hsorted tidyPaths_ownPet hmine htexts rfl hpath
  refine ⟨hfits, ?_, hanswer _ hmine htexts requestMine rfl hpath⟩
  exact hpreferred _ _ _ hfind _ hany hfits hdifferent

end Document

end ApiForge
