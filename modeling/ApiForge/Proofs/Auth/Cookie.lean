import ApiForge.Proofs.Auth.Credential
import ApiForge.Proofs.Text.Split
import ApiForge.Proofs.Text.Trim
import Mathlib.Data.List.Forall2
/-!
Looking up a cookie inverts writing cookies.

# Written cookies

A cookie header is written from items (`Cookie.Holds`): with semicolons between
and blanks around them, and each either a name with a value or something without
an equals sign. A header that cannot be read because it is not all ASCII counts as
one of no items.

# Reading

What is written holds a semicolon only where it cuts, and the first equals sign of
an item stands behind its name, so the pairs among the items are what is read
(`cookies_eq`). The first one of a name is looked up, and it makes a key unless it
is empty (`first_cookie_counts`).
-/

namespace ApiForge

open Text (Blanks Tight Utf8.bytes)

-- ================================================ statement vocabulary

namespace Http.Cookie

/-- An item of a cookie header. -/
inductive Item where
  | pair (name value : String)
  | bare (text : String)
deriving DecidableEq

namespace Item

def text : Item → String
  | pair name value => name ++ "=" ++ value
  | bare text => text

/-- An item that can be told from its text where that stands between
semicolons. -/
def Proper : Item → Prop
  | pair name value => '=' ∉ name.toList ∧ ';' ∉ name.toList ∧ ';' ∉ value.toList
      ∧ Tight name ∧ Tight value
  | bare text => '=' ∉ text.toList ∧ ';' ∉ text.toList

instance (item : Item) : Decidable item.Proper :=
  match item with
  | pair _ _ => inferInstanceAs (Decidable (_ ∧ _ ∧ _ ∧ _ ∧ _))
  | bare _ => inferInstanceAs (Decidable (_ ∧ _))

/-- Whether an item gives a value to a name. -/
def isOf (name : String) : Item → Bool
  | pair n _ => n == name
  | bare _ => false

end Item

/-- An item, and what is written for it: its text with blanks around. -/
def PieceOf (item : Item) (piece : List Char) : Prop :=
  item.Proper ∧ ∃ before after, Blanks before ∧ Blanks after
    ∧ piece = (before ++ item.text ++ after).toList

/-- Items, and a header that holds just these. -/
inductive Holds : List Item → Header → Prop
  | items {items : List Item} {h : Header} {pieces : List (List Char)}
      {text : String} :
      List.Forall₂ PieceOf items pieces → text.toList = [';'].intercalate pieces →
      (∀ c ∈ text.toList, Header.Readable c) → h.value = Utf8.bytes text →
      Holds items h
  | unreadable {h : Header} {b : UInt8} : b ∈ h.value → 0x80 ≤ b → Holds [] h

/-- A request, and the items of its cookie headers, header by header. -/
def Carries (r : Request) (lines : List (List Item)) : Prop :=
  List.Forall₂ Holds lines (r.headers.filter (·.name == "cookie"))

/-- The first item of a name has a value. -/
def First (name value : String) (items : List Item) : Prop :=
  ∃ before after, items = before ++ .pair name value :: after
    ∧ ∀ item ∈ before, item.isOf name = false

end Http.Cookie

namespace Auth

open Http (Cookie.Carries Cookie.First Cookie.Holds Cookie.Item Cookie.PieceOf
  Header Request)

-- =============================================================== items

variable {name value : String} {item : Cookie.Item} {items : List Cookie.Item}

/-- The name and the value of an item, if it has them. -/
def pair? : Cookie.Item → Option (String × String)
  | .pair name value => some (name, value)
  | .bare _ => none

/-- What an item of a header is read as. -/
def readItem (piece : String) : Option (String × String) :=
  cutAt '=' (Text.trim piece)

/-- An item is read as what it was written from. -/
theorem readItem_piece {piece : List Char} (h : Cookie.PieceOf item piece) :
    readItem (String.ofList piece) = pair? item := by
  obtain ⟨hproper, before, after, hbefore, hafter, rfl⟩ := h
  rw [String.ofList_toList]
  unfold readItem
  -- a pair is cut at its first equals sign, and a bare text has none
  cases item with
  | pair name value =>
      obtain ⟨hequals, -, -, hname, hvalue⟩ := hproper
      have hne : "=" ≠ "" := by decide
      have hmark : Tight "=" := by decide
      have htight : Tight (name ++ "=" ++ value) := by
        constructor
        · rw [String.append_assoc]
          exact Text.first_append hname.first fun _ =>
            Text.first_append hmark.first fun hempty => absurd hempty hne
        · exact Text.last_append hvalue.last fun _ =>
            Text.last_append hmark.last fun hempty => absurd hempty hne
      have htrim : Text.trim (before ++ (name ++ "=" ++ value) ++ after)
          = name ++ "=" ++ value :=
        Text.trim_eq_iff.2 ⟨htight, before, after, hbefore, hafter, rfl⟩
      show cutAt '=' (Text.trim (before ++ (name ++ "=" ++ value) ++ after)) = _
      rw [htrim]
      exact cutAt_eq_some_iff.2 ⟨rfl, hequals⟩
  | bare text =>
      refine cutAt_eq_none_iff.2 fun hmem => ?_
      have hin : '=' ∈ (before ++ text ++ after).toList :=
        Text.mem_of_mem_trim hmem
      simp only [String.toList_append, List.mem_append] at hin
      rcases hin with (hin | hin) | hin
      · exact absurd (hbefore _ hin) (by decide)
      · exact hproper.1 hin
      · exact absurd (hafter _ hin) (by decide)

/-- An item of a cookie is written without semicolon. -/
theorem not_semicolon_of_piece {piece : List Char}
    (h : Cookie.PieceOf item piece) : ';' ∉ piece := by
  obtain ⟨hproper, before, after, hbefore, hafter, rfl⟩ := h
  have htext : ';' ∉ item.text.toList := by
    cases item with
    | pair name value =>
        obtain ⟨-, hname, hvalue, -, -⟩ := hproper
        simp [Cookie.Item.text, hname, hvalue]
    | bare text => exact hproper.2
  simp only [String.toList_append, List.mem_append, not_or]
  refine ⟨⟨fun hmem => ?_, htext⟩, fun hmem => ?_⟩
  · exact absurd (hbefore _ hmem) (by decide)
  · exact absurd (hafter _ hmem) (by decide)

-- ============================================================= headers

/-- The pairs that a text is read as. -/
def pairsIn (text : String) : List (String × String) :=
  (Text.splitAtChar ';' text).filterMap readItem

/-- A header that is written from items is read as their pairs, in order. -/
theorem pairsIn_written {pieces : List (List Char)} {text : String}
    (h : List.Forall₂ Cookie.PieceOf items pieces)
    (htext : text.toList = [';'].intercalate pieces) :
    pairsIn text = items.filterMap pair? := by
  have hread : (pieces.map String.ofList).filterMap readItem
      = items.filterMap pair? := by
    clear htext
    induction h with
    | nil => rfl
    | cons hpiece _ ih =>
        rw [List.map_cons, List.filterMap_cons, List.filterMap_cons,
          readItem_piece hpiece, ih]
  unfold pairsIn Text.splitAtChar
  rw [htext]
  by_cases hnil : pieces = []
  · -- a text of no items is read as one item, which is empty
    subst hnil
    rw [← hread]
    decide
  · have hcut : ∀ piece ∈ pieces, ';' ∉ piece := by
      clear hread hnil htext
      induction h with
      | nil => exact fun piece hpiece => absurd hpiece List.not_mem_nil
      | cons hpiece _ ih =>
          exact List.forall_mem_cons.2 ⟨not_semicolon_of_piece hpiece, ih⟩
    rw [Text.splitBy_intercalate hnil hcut, hread]

/-- What is read of a header, nothing if it cannot be read. -/
theorem pairsIn_header {h : Header} (hholds : Cookie.Holds items h) :
    (h.text?.toList).flatMap pairsIn = items.filterMap pair? := by
  cases hholds with
  | @items _ _ pieces text hpieces htext hreadable hvalue =>
      rw [Header.text?_eq_some_iff.2 ⟨hvalue, hreadable⟩]
      show [text].flatMap pairsIn = _
      rw [List.flatMap_singleton, pairsIn_written hpieces htext]
  | unreadable hb hlarge =>
      rw [Header.text?_eq_none hb hlarge]
      rfl

/-- The pairs among the items are what is read. -/
theorem cookies_eq {r : Request} {lines : List (List Cookie.Item)}
    (h : Cookie.Carries r lines) : cookies r = lines.flatten.filterMap pair? := by
  have hname : Header.nameOf? "cookie" = some "cookie" := by decide +kernel
  show ((r.headersNamed "cookie").filterMap Header.text?).flatMap pairsIn = _
  rw [Request.headersNamed_eq hname]
  unfold Cookie.Carries at h
  generalize r.headers.filter (·.name == "cookie") = headers at h
  induction h with
  | nil => rfl
  | @cons items h lines headers hholds _ ih =>
      rw [List.flatten_cons, List.filterMap_append, ← pairsIn_header hholds, ← ih]
      cases htext : h.text? with
      | none => rw [List.filterMap_cons_none htext]; rfl
      | some text =>
          rw [List.filterMap_cons_some htext, List.flatMap_cons]
          simp

-- ============================================================== look-up

/-- The first item of a name stands in front, or it is the first behind items of other
names. -/
theorem first_cons_iff : Cookie.First name value (item :: items)
    ↔ item = .pair name value
      ∨ item.isOf name = false ∧ Cookie.First name value items := by
  constructor
  · rintro ⟨before, after, heq, hbefore⟩
    cases before with
    | nil =>
        obtain ⟨rfl, -⟩ := List.cons.inj heq
        exact .inl rfl
    | cons first before =>
        obtain ⟨rfl, hitems⟩ := List.cons.inj heq
        obtain ⟨hfirst, hrest⟩ := List.forall_mem_cons.1 hbefore
        exact .inr ⟨hfirst, before, after, hitems, hrest⟩
  · rintro (rfl | ⟨hitem, before, after, rfl, hbefore⟩)
    · exact ⟨[], items, rfl, fun _ h => absurd h List.not_mem_nil⟩
    · exact ⟨item :: before, after, rfl, List.forall_mem_cons.2 ⟨hitem, hbefore⟩⟩

/-- A look-up stops at an item of the name, and passes over any other. -/
theorem lookup_cons : ((item :: items).filterMap pair?).lookup name
    = if item.isOf name then (pair? item).map Prod.snd
      else (items.filterMap pair?).lookup name := by
  cases item with
  | bare text => rfl
  | pair n v =>
      show ((n, v) :: items.filterMap pair?).lookup name
        = if (n == name) = true then some v else _
      rw [List.lookup_cons]
      by_cases hn : n = name
      · subst hn
        simp
      · rw [beq_eq_false_iff_ne.2 (Ne.symm hn), beq_eq_false_iff_ne.2 hn]
        rfl

/-- The first item of a name is found. -/
theorem lookup_eq_some_iff : (items.filterMap pair?).lookup name = some value
    ↔ Cookie.First name value items := by
  induction items with
  | nil =>
      refine iff_of_false (by simp) ?_
      rintro ⟨before, after, heq, -⟩
      cases before <;> cases heq
  | cons item items ih =>
      rw [lookup_cons, first_cons_iff, ← ih]
      cases item with
      | bare text => simp [Cookie.Item.isOf]
      | pair n v =>
          by_cases hn : n = name <;> simp [Cookie.Item.isOf, pair?, hn]

/-- Nothing is found when all items are of other names. -/
theorem lookup_eq_none_iff : (items.filterMap pair?).lookup name = none
    ↔ ∀ item ∈ items, item.isOf name = false := by
  induction items with
  | nil => simp
  | cons item items ih =>
      rw [lookup_cons, List.forall_mem_cons, ← ih]
      cases item with
      | bare text => simp [Cookie.Item.isOf]
      | pair n v =>
          by_cases hn : n = name <;> simp [Cookie.Item.isOf, pair?, hn]

/-- Items of other names do not matter. -/
theorem lookup_filter :
    ((items.filter (Cookie.Item.isOf name)).filterMap pair?).lookup name
      = (items.filterMap pair?).lookup name := by
  induction items with
  | nil => rfl
  | cons item items ih =>
      rw [lookup_cons, ← ih]
      by_cases hitem : item.isOf name = true
      · rw [List.filter_cons_of_pos hitem, lookup_cons, if_pos hitem]
      · rw [List.filter_cons_of_neg hitem, if_neg hitem]

-- ========================================================= main result

/-- A request whose cookie headers are written from items shows a scheme the value
of the first item of its name, over all headers in order, unless this is empty or
there is none. Items of other names, those without a name, and headers that cannot
be read have no part in it. -/
theorem first_cookie_counts {r : Request} {lines : List (List Cookie.Item)}
    (h : Cookie.Carries r lines) (name : String) :
    (∀ value, (Scheme.apiKey name .cookie).credential? r = some (.apiKey value)
        ↔ value ≠ "" ∧ Cookie.First name value lines.flatten)
      ∧ ((Scheme.apiKey name .cookie).credential? r = none
        ↔ (∀ item ∈ lines.flatten, item.isOf name = false)
          ∨ Cookie.First name "" lines.flatten)
      ∧ ∀ r' lines', Cookie.Carries r' lines' →
        lines'.flatten.filter (Cookie.Item.isOf name)
          = lines.flatten.filter (Cookie.Item.isOf name) →
        (Scheme.apiKey name .cookie).credential? r'
          = (Scheme.apiKey name .cookie).credential? r := by
  -- what is shown is looked up among the pairs, and must not be empty
  have hshown {r : Request} {lines : List (List Cookie.Item)}
      (h : Cookie.Carries r lines) : (Scheme.apiKey name .cookie).credential? r
        = (((lines.flatten.filterMap pair?).lookup name).bind nonEmpty).map
          .apiKey := by
    rw [← cookies_eq h]
    rfl
  refine ⟨fun value => ?_, ?_, fun r' lines' h' hsame => ?_⟩
  · rw [hshown h]
    simp only [Option.map_eq_some_iff, Option.bind_eq_some_iff,
      nonEmpty_eq_some_iff, lookup_eq_some_iff, Credential.apiKey.injEq]
    constructor
    · rintro ⟨_, ⟨_, hfirst, rfl, hne⟩, rfl⟩
      exact ⟨hne, hfirst⟩
    · rintro ⟨hne, hfirst⟩
      exact ⟨value, ⟨value, hfirst, rfl, hne⟩, rfl⟩
  · rw [hshown h, ← lookup_eq_none_iff, ← lookup_eq_some_iff,
      Option.map_eq_none_iff]
    cases (lines.flatten.filterMap pair?).lookup name with
    | none => simp
    | some value =>
        by_cases hempty : value = ""
        · subst hempty
          simp [nonEmpty]
        · have hsome := nonEmpty_eq_some_iff.2 ⟨rfl, hempty⟩
          simp [hsome, hempty]
  · rw [hshown h, hshown h', ← lookup_filter, hsame, lookup_filter]

-- a name with two values, in headers around one that is not ASCII

open Http.Cookie (Item)

/-- A request with three cookie headers, the second of which cannot be read. -/
def visitorRequest : Request :=
  { (default : Request) with
    headers := [
      { name := "cookie", value := Utf8.bytes "theme=dark; session=a=b ;x" },
      { name := "cookie", value := [0x73, 0x3D, 0xC3] },
      { name := "accept", value := Utf8.bytes "*/*" },
      { name := "cookie", value := Utf8.bytes "session=late" }] }

def visitorLines : List (List Item) :=
  [[.pair "theme" "dark", .pair "session" "a=b", .bare "x"], [],
    [.pair "session" "late"]]

/-- A request with the two sessions in one header. -/
def sessionRequest : Request :=
  { (default : Request) with
    headers := [
      { name := "cookie", value := Utf8.bytes "session=a=b;session=late" }] }

def sessionLines : List (List Item) :=
  [[.pair "session" "a=b", .pair "session" "late"]]

/-- A proper item is a piece with blanks around its text. -/
theorem pieceOf_text {item : Item} (h : item.Proper) (before after : String)
    (hblank : (before ++ after).toList.all Text.isBlank = true) :
    Cookie.PieceOf item (before ++ item.text ++ after).toList := by
  simp only [String.toList_append, List.all_append, Bool.and_eq_true,
    List.all_eq_true] at hblank
  exact ⟨h, before, after, hblank.1, hblank.2, rfl⟩

theorem readable_of_all {text : String}
    (h : text.toList.all (fun c => decide (Header.Readable c)) = true) :
    ∀ c ∈ text.toList, Header.Readable c := by
  simpa using h

/-- The visitor's headers are written from the visitor's items. -/
theorem carries_visitor : Cookie.Carries visitorRequest visitorLines := by
  have hfirst : List.Forall₂ Cookie.PieceOf
      [.pair "theme" "dark", .pair "session" "a=b", .bare "x"]
      ["theme=dark".toList, " session=a=b ".toList, "x".toList] :=
    .cons (pieceOf_text (by decide) "" "" (by decide))
      (.cons (pieceOf_text (by decide) " " " " (by decide))
        (.cons (pieceOf_text (by decide) "" "" (by decide)) .nil))
  have hlast : List.Forall₂ Cookie.PieceOf [.pair "session" "late"]
      ["session=late".toList] :=
    .cons (pieceOf_text (by decide) "" "" (by decide)) .nil
  have hheaders : visitorRequest.headers.filter (·.name == "cookie")
      = [{ name := "cookie", value := Utf8.bytes "theme=dark; session=a=b ;x" },
        { name := "cookie", value := [0x73, 0x3D, 0xC3] },
        { name := "cookie", value := Utf8.bytes "session=late" }] := by
    simp [visitorRequest]
  unfold Cookie.Carries
  rw [hheaders]
  exact .cons (.items hfirst (by decide) (readable_of_all (by decide)) rfl)
    (.cons (.unreadable (b := 0xC3) (by decide) (by decide))
      (.cons (.items hlast (by decide) (readable_of_all (by decide)) rfl) .nil))

/-- The headers of the session are written from its items. -/
theorem carries_session : Cookie.Carries sessionRequest sessionLines := by
  have hpieces : List.Forall₂ Cookie.PieceOf
      [.pair "session" "a=b", .pair "session" "late"]
      ["session=a=b".toList, "session=late".toList] :=
    .cons (pieceOf_text (by decide) "" "" (by decide))
      (.cons (pieceOf_text (by decide) "" "" (by decide)) .nil)
  have hheaders : sessionRequest.headers.filter (·.name == "cookie")
      = sessionRequest.headers := by
    simp [sessionRequest]
  unfold Cookie.Carries
  rw [hheaders]
  exact .cons (.items hpieces (by decide) (readable_of_all (by decide)) rfl) .nil

/-- The first session is found, with its equals sign, and no cookie is found under
a front part of a name. -/
theorem first_cookie_counts_visitor :
    Cookie.Carries visitorRequest visitorLines
      ∧ (Scheme.apiKey "session" .cookie).credential? visitorRequest
        = some (.apiKey "a=b")
      ∧ (Scheme.apiKey "sess" .cookie).credential? visitorRequest = none
      ∧ (Scheme.apiKey "session" .cookie).credential? sessionRequest
        = (Scheme.apiKey "session" .cookie).credential? visitorRequest := by
  obtain ⟨hfound, -, hsame⟩ := first_cookie_counts carries_visitor "session"
  obtain ⟨-, hnone, -⟩ := first_cookie_counts carries_visitor "sess"
  refine ⟨carries_visitor, (hfound "a=b").2 ⟨by decide, [.pair "theme" "dark"],
    [.bare "x", .pair "session" "late"], rfl, by decide⟩,
    hnone.2 (.inl (by decide)), hsame _ _ carries_session (by decide)⟩

end Auth

end ApiForge
