import ApiForge.Proofs.Text.Percent
import ApiForge.Proofs.Text.Split
import ApiForge.Service.Argument
import Mathlib.Data.List.TakeWhile
/-!
Looking up a query inverts writing it.

# Written queries

A query is written from pairs of a key and a value (`Query.WrittenAs`): the pairs
with an ampersand between, key and value with an equals sign between, and an
empty value also without one. A character that a query uses for itself is
escaped, a space is a plus sign or escaped, and any other character may be
escaped; as in a path, an escaped character is escaped entirely.

# Reading

What is written holds an ampersand and an equals sign only where these cut, so
the query is cut into what was written for the pairs (`pairsOf_written`). A look-up
then finds the first pair of its key, and arguments and keys are what it finds
(`first_pair_is_read`). The query arrives as it was written, since it holds no
number sign, at which a target would end (`Uri.query_of_parse`).
-/

namespace ApiForge

open String (utf8EncodeChar)

-- ================================================ statement vocabulary

namespace Http.Query

open Text.Percent (OctetAs)

/-- How a character of a key or a value is written. -/
inductive CharAs (c : Char) : List Char → Prop
  | plain : c ∉ [' ', '%', '+', '&', '=', '#'] → CharAs c [c]
  | plus : c = ' ' → CharAs c ['+']
  | escaped {escapes : List (List Char)} :
      List.Forall₂ OctetAs (utf8EncodeChar c) escapes →
      CharAs c escapes.flatten

/-- A key or a value, and characters that write it. -/
def TextAs (text : String) (cs : List Char) : Prop :=
  ∃ pieces, List.Forall₂ CharAs text.toList pieces ∧ cs = pieces.flatten

/-- How a pair of a key and a value is written. -/
inductive PairAs : String × String → List Char → Prop
  | both {key value : String} {k v : List Char} :
      TextAs key k → TextAs value v → PairAs (key, value) (k ++ '=' :: v)
  | bare {key : String} {k : List Char} : TextAs key k → PairAs (key, "") k

/-- Pairs, and a query that writes them. -/
def WrittenAs (pairs : List (String × String)) (query : String) : Prop :=
  ∃ pieces, List.Forall₂ PairAs pairs pieces
    ∧ query.toList = ['&'].intercalate pieces

end Http.Query

-- ================================================================ targets

namespace Http.Uri

open Text (dropWhile_append_cons)

variable {front query : List Char} {uri : Uri}

/-- The query of a target is what stands behind its question mark. -/
theorem query_ofPathAndQuery? (hfront : '?' ∉ front ∧ '#' ∉ front)
    (hquery : '#' ∉ query)
    (h : ofPathAndQuery? (front ++ '?' :: query) = some uri) :
    uri.query = some (String.ofList query) := by
  have hshown : (front ++ '?' :: query).takeWhile (· != '#')
      = front ++ '?' :: query := by
    refine List.takeWhile_eq_self_iff.2 fun c hc => bne_iff_ne.2 ?_
    rintro rfl
    rcases List.mem_append.1 hc with hc | hc
    · exact hfront.2 hc
    · exact (List.mem_cons.1 hc).elim (by decide) hquery
  have hdrop : (front ++ '?' :: query).dropWhile (· != '?') = '?' :: query := by
    rw [dropWhile_append_cons rfl, List.dropWhile_eq_nil_iff.2, List.nil_append]
    exact fun c hc => bne_iff_ne.2 (ne_of_mem_of_not_mem hc hfront.1)
  rw [ofPathAndQuery?, hshown, hdrop] at h
  obtain ⟨-, huri⟩ := Option.ite_none_right_eq_some.1 h
  cases huri
  rfl

/-- A question mark stands in no authority. -/
theorem not_isAuthority {cs : List Char} (h : '?' ∈ cs) :
    isAuthority cs = false := by
  have hnone (s : AuthorityScan) : cs.foldlM AuthorityScan.step s = none := by
    induction cs generalizing s with
    | nil => exact absurd h List.not_mem_nil
    | cons c rest ih =>
        rw [List.foldlM_cons]
        rcases List.mem_cons.1 h with rfl | h
        · rfl
        · cases s.step c with
          | none => rfl
          | some s => exact ih h s
  rw [isAuthority, hnone]

/-- What stands behind a scheme goes on as the target does. -/
theorem splitScheme_append_cons {scheme rest : List Char}
    (h : splitScheme (front ++ '?' :: query) = some (scheme, rest)) :
    ∃ more, (∀ c ∈ more, c ∈ front) ∧ rest = more ++ '?' :: query := by
  rw [splitScheme, dropWhile_append_cons (by decide)] at h
  have hmem : ∀ c ∈ front.dropWhile isSchemeChar, c ∈ front :=
    fun c hc => (List.dropWhile_suffix _).subset hc
  generalize front.dropWhile isSchemeChar = behind at h hmem
  split at h
  · rename_i rest' heq
    cases h
    -- the question mark is none of the three characters behind the scheme
    match behind with
    | [] => cases heq
    | [_] => cases heq
    | [_, _] => cases heq
    | a :: b :: c :: more =>
        cases heq
        exact ⟨more, fun x hx => hmem x (by simp [hx]), rfl⟩
  · cases h

/-- A target that goes on with a question mark has as query what stands
behind it. -/
theorem query_of_parse {target query : String}
    (htarget : '?' ∉ target.toList ∧ '#' ∉ target.toList)
    (hquery : '#' ∉ query.toList)
    (h : parse? (target ++ "?" ++ query) = some uri) :
    uri.query = some query := by
  have hchars : (target ++ "?" ++ query).toList
      = target.toList ++ '?' :: query.toList := by
    rw [String.toList_append, String.toList_append, List.append_assoc]
    rfl
  have hmark : '?' ∈ target.toList ++ '?' :: query.toList :=
    List.mem_append_right _ (List.mem_cons_self ..)
  have hread {front : List Char} (hfront : '?' ∉ front ∧ '#' ∉ front)
      (h : ofPathAndQuery? (front ++ '?' :: query.toList) = some uri) :
      uri.query = some query := by
    rw [query_ofPathAndQuery? hfront hquery h, String.ofList_toList]
  rw [parse?, hchars] at h
  -- path, authority and scheme are cut off in front of the question mark
  split at h
  · cases h
  split at h
  · rename_i hnil
    rw [hnil] at hmark
    exact absurd hmark List.not_mem_nil
  · rename_i hstar
    rw [hstar] at hmark
    exact absurd hmark (by decide)
  · exact hread htarget h
  split at h
  · rw [not_isAuthority hmark] at h
    cases h
  · rename_i scheme rest hscheme
    obtain ⟨more, hmore, rfl⟩ := splitScheme_append_cons hscheme
    obtain ⟨-, h⟩ := Option.ite_none_left_eq_some.1 h
    rw [dropWhile_append_cons (by decide)] at h
    have hpath {c : Char} (hc : c ∈ more.dropWhile fun c => !endsAuthority c) :
        c ∈ target.toList :=
      hmore c ((List.dropWhile_suffix _).subset hc)
    exact hread ⟨fun hc => htarget.1 (hpath hc), fun hc => htarget.2 (hpath hc)⟩ h

end Http.Uri

-- ================================================================ writing

namespace Http.Query

open Text (Percent.decode Percent.decodeOctets Percent.plain
  dropWhile_append_cons mem_intercalate splitBy_intercalate)
open Text.Utf8 (encode)

variable {c : Char} {cs : List Char} {text : String} {pair : String × String}
  {pairs : List (String × String)} {query : String}

/-- A written character stands for its octets. -/
theorem decodeOctets_charAs (h : CharAs c cs) (rest : List UInt8) :
    Percent.decodeOctets true (encode cs ++ rest)
      = utf8EncodeChar c ++ Percent.decodeOctets true rest := by
  cases h with
  | plain hplain =>
      simp only [List.mem_cons, List.not_mem_nil, or_false, not_or] at hplain
      obtain ⟨-, hpercent, hplus, -⟩ := hplain
      have hpercent : c.toNat ≠ 0x25 := mt (fun h => Char.toNat_inj.1 h) hpercent
      have hplus : c.toNat ≠ 0x2B := mt (fun h => Char.toNat_inj.1 h) hplus
      rw [encode, List.flatMap_singleton]
      refine Text.Percent.decodeOctets_append (fun b hb => ?_) rest
      refine ⟨Text.Percent.ne_ofNat_of_mem (by decide) hpercent b hb, ?_⟩
      have hb : (b == 0x2B) = false := beq_eq_false_iff_ne.2
        (Text.Percent.ne_ofNat_of_mem (by decide) hplus b hb)
      rw [Percent.plain, hb]
      rfl
  | plus hspace =>
      cases hspace
      exact Text.Percent.decodeOctets_cons (by decide) rest
  | escaped hescapes => exact Text.Percent.decodeOctets_escapes hescapes rest

theorem decode_textAs (h : TextAs text cs) :
    Percent.decode true (String.ofList cs) = text := by
  obtain ⟨pieces, hpieces, rfl⟩ := h
  exact Text.Percent.decode_pieces (fun _ _ hchar => decodeOctets_charAs hchar)
    hpieces

/-- What writes a key or a value holds nothing at which a query is cut. -/
theorem not_cut_of_textAs (h : TextAs text cs) :
    ∀ x ∈ cs, x ≠ '&' ∧ x ≠ '=' ∧ x ≠ '#' := by
  obtain ⟨pieces, hpieces, rfl⟩ := h
  refine Text.Percent.forall_mem_pieces (fun c cs hchar x hx => ?_) hpieces
  cases hchar with
  | plain hplain =>
      cases List.mem_singleton.1 hx
      simp only [List.mem_cons, List.not_mem_nil, or_false, not_or] at hplain
      exact hplain.2.2.2
  | plus =>
      cases List.mem_singleton.1 hx
      decide
  | escaped hescapes =>
      rcases Text.Percent.mem_escapes hescapes x hx with rfl | halnum
      · decide
      · refine ⟨?_, ?_, ?_⟩ <;> rintro rfl <;> exact absurd halnum (by decide)

/-- What is written for a pair has no mark between pairs in it. -/
theorem not_cut_of_pairAs (h : PairAs pair cs) :
    ∀ x ∈ cs, x ≠ '&' ∧ x ≠ '#' := by
  have htext {text : String} {cs : List Char} (h : TextAs text cs) :
      ∀ x ∈ cs, x ≠ '&' ∧ x ≠ '#' :=
    fun x hx => ⟨(not_cut_of_textAs h x hx).1, (not_cut_of_textAs h x hx).2.2⟩
  cases h with
  | bare hkey => exact htext hkey
  | both hkey hvalue =>
      intro x hx
      rcases List.mem_append.1 hx with hx | hx
      · exact htext hkey x hx
      · rcases List.mem_cons.1 hx with rfl | hx
        · decide
        · exact htext hvalue x hx

/-- What is written for pairs has no mark between pairs in any piece. -/
theorem not_cut_of_pieces {pieces : List (List Char)}
    (h : List.Forall₂ PairAs pairs pieces) :
    ∀ piece ∈ pieces, ∀ x ∈ piece, x ≠ '&' ∧ x ≠ '#' := by
  have hall : List.Forall₂
      (fun piece pair => (∀ x ∈ piece, x ≠ '&' ∧ x ≠ '#') ∧ PairAs pair piece)
      pieces pairs :=
    .flip (h.imp fun pair piece hpair => ⟨not_cut_of_pairAs hpair, hpair⟩)
  exact ((List.forall₂_and_left _ _).1 hall).1

/-- No written query holds a number sign, at which a target ends. -/
theorem no_number_sign (h : WrittenAs pairs query) : '#' ∉ query.toList := by
  obtain ⟨pieces, hpieces, hquery⟩ := h
  rw [hquery]
  intro hmem
  rcases mem_intercalate hmem with heq | ⟨piece, hpiece, hmem⟩
  · exact absurd heq (by decide)
  · exact (not_cut_of_pieces hpieces piece hpiece '#' hmem).2 rfl

-- ================================================================ reading

/-- A pair of a query with its escapes undone. -/
def readPair (pair : List Char) : String × String :=
  (Percent.decode true (String.ofList (Request.splitPair pair).1),
    Percent.decode true (String.ofList (Request.splitPair pair).2))

theorem pairsOf_eq (query : String) :
    Request.pairsOf query
      = (Text.splitBy (· == '&') query.toList).map readPair := rfl

/-- A written pair is cut at its equals sign, if it has one. -/
theorem readPair_written (h : PairAs pair cs) : readPair cs = pair := by
  rw [readPair, Request.splitPair]
  cases h with
  | bare hkey =>
      have hall : ∀ x ∈ cs, (x != '=') = true :=
        fun x hx => bne_iff_ne.2 (not_cut_of_textAs hkey x hx).2.1
      have hempty : TextAs "" [] := ⟨[], .nil, rfl⟩
      rw [List.takeWhile_eq_self_iff.2 hall, List.dropWhile_eq_nil_iff.2 hall,
        List.drop_nil, decode_textAs hkey, decode_textAs hempty]
  | @both _ _ k v hkey hvalue =>
      have hall : ∀ x ∈ k, (x != '=') = true :=
        fun x hx => bne_iff_ne.2 (not_cut_of_textAs hkey x hx).2.1
      rw [List.takeWhile_append_of_pos hall, dropWhile_append_cons (by decide),
        List.dropWhile_eq_nil_iff.2 hall, List.takeWhile_cons_of_neg (by decide),
        List.append_nil, List.nil_append, List.drop_one, List.tail_cons,
        decode_textAs hkey, decode_textAs hvalue]

/-- The pairs of a query are those that were written, if there are any. -/
theorem pairsOf_written (h : WrittenAs pairs query) (hne : pairs ≠ []) :
    Request.pairsOf query = pairs := by
  obtain ⟨pieces, hpieces, hquery⟩ := h
  have hcut : ∀ piece ∈ pieces, '&' ∉ piece := fun piece hpiece hmem =>
    (not_cut_of_pieces hpieces piece hpiece '&' hmem).1 rfl
  have hsome : pieces ≠ [] := by
    rintro rfl
    cases hpieces
    exact hne rfl
  rw [pairsOf_eq, hquery, splitBy_intercalate hsome hcut]
  clear hquery hcut hsome hne
  induction hpieces with
  | nil => rfl
  | cons hpair _ ih => rw [List.map_cons, ih, readPair_written hpair]

/-- A look-up finds the first written pair of a name. -/
theorem lookup_pairsOf (h : WrittenAs pairs query) {name : String}
    (hname : name ≠ "") :
    (Request.pairsOf query).lookup name = pairs.lookup name := by
  by_cases hne : pairs = []
  · -- the empty query holds one pair, of an empty key and an empty value
    subst hne
    obtain ⟨_, ⟨⟩, hquery⟩ := h
    have hempty : PairAs ("", "") [] := .bare ⟨[], .nil, rfl⟩
    have hpairs : Request.pairsOf query = [("", "")] := by
      rw [pairsOf_eq, hquery, List.intercalate_nil, Text.splitBy, List.map_cons,
        readPair_written hempty, List.map_nil]
    rw [hpairs, List.lookup_cons, beq_eq_false_iff_ne.2 hname]
  · rw [pairsOf_written h hne]

end Http.Query

-- ============================================================= main result

namespace Service

open Http (Query.WrittenAs Uri)

/-- A query that is written from pairs reaches the service as it was written, and
whatever is asked for under a name is answered with the value of the first pair of
this name: the look-up itself, an argument that is required, which is missing just
when there is no such pair, one that may be left out, and the key of a scheme,
which must not be empty to count. -/
theorem first_pair_is_read {pairs : List (String × String)} {query name : String}
    (h : Query.WrittenAs pairs query) (hname : name ≠ "") :
    (∀ target uri, '?' ∉ target.toList → '#' ∉ target.toList →
        Uri.parse? (target ++ "?" ++ query) = some uri → uri.query = some query)
      ∧ ∀ c : Call, c.request.uri.query = some query →
        c.request.queryValue? name = pairs.lookup name
          ∧ (∀ (α : Type) (read : Reader α),
              (c.queryArgument read name = .error (.missing name .query)
                  ↔ ∀ pair ∈ pairs, pair.1 ≠ name)
                ∧ (∀ value, pairs.lookup name = some value →
                    c.queryArgument read name
                      = (read value).mapError (.invalid name .query))
                ∧ c.queryArgument? read name
                  = (pairs.lookup name).bind fun value => (read value).toOption)
          ∧ Auth.key? c.request name .query = pairs.lookup name
          ∧ (Auth.Scheme.apiKey name .query).credential? c.request
            = ((pairs.lookup name).bind Auth.nonEmpty).map .apiKey := by
  refine ⟨fun target uri hmark hsign => Uri.query_of_parse ⟨hmark, hsign⟩
    (Http.Query.no_number_sign h), fun c hquery => ?_⟩
  -- all readings go back to this one look-up
  have hvalue : c.request.queryValue? name = pairs.lookup name := by
    rw [Http.Request.queryValue?, hquery, Option.bind_some,
      Http.Query.lookup_pairsOf h hname]
  refine ⟨hvalue, fun α read => ⟨?_, ?_, ?_⟩, hvalue, ?_⟩
  · have hnone : pairs.lookup name = none ↔ ∀ pair ∈ pairs, pair.1 ≠ name := by
      simp only [List.lookup_eq_none_iff, bne_iff_ne, ne_comm]
    rw [Call.queryArgument, hvalue, ← hnone]
    cases pairs.lookup name with
    | none => exact iff_of_true rfl rfl
    | some value =>
        rw [Call.readArgument]
        cases read value <;> simp [Except.mapError]
  · intro value hfound
    rw [Call.queryArgument, hvalue, hfound, Call.readArgument]
  · rw [Call.queryArgument?, hvalue]
  · rw [Auth.Scheme.credential?, Auth.key?, hvalue]

-- a query for two names, of which the first is in part escaped

open Http.Query (TextAs PairAs)
open Text.Percent (OctetAs)

theorem textAs_self {text : String}
    (h : text.toList.all
      (fun c => decide (c ∉ [' ', '%', '+', '&', '=', '#'])) = true) :
    TextAs text text.toList := by
  refine ⟨text.toList.map ([·]), ?_, ?_⟩
  · rw [List.forall₂_map_right_iff, List.forall₂_same]
    exact fun c hc => .plain (of_decide_eq_true (List.all_eq_true.1 h c hc))
  · rw [← List.flatMap_def, List.flatMap_singleton']

/-- Texts are written one after the other. -/
theorem textAs_append {s t : String} {cs ds : List Char} (hs : TextAs s cs)
    (ht : TextAs t ds) : TextAs (s ++ t) (cs ++ ds) := by
  obtain ⟨pieces, hpieces, rfl⟩ := hs
  obtain ⟨more, hmore, rfl⟩ := ht
  refine ⟨pieces ++ more, ?_, List.flatten_append.symm⟩
  rw [String.toList_append]
  exact List.rel_append hpieces hmore

/-- Three pairs, two of them of one name. -/
def twoNames : List (String × String) :=
  [("name", "big dog"), ("flag", ""), ("name", "cat")]

def twoNamesQuery : String := "na%6De=big+dog&flag&name=cat"

/-- The query is written from the two values and the flag. -/
theorem written_twoNames : Query.WrittenAs twoNames twoNamesQuery := by
  have hname : TextAs ("na" ++ "m" ++ "e") "na%6De".toList := by
    have hescapes : List.Forall₂ OctetAs (utf8EncodeChar 'm')
        [['%', '6', 'D']] := by
      have hoctets : utf8EncodeChar 'm' = [0x6D] := by decide
      rw [hoctets]
      exact .cons (.escape (by decide) (by decide)) .nil
    have hm : TextAs "m" ['%', '6', 'D'] :=
      ⟨_, .cons (.escaped hescapes) .nil, rfl⟩
    exact textAs_append (textAs_append (textAs_self (by decide)) hm)
      (textAs_self (by decide))
  have hspace : TextAs ("big" ++ " " ++ "dog") "big+dog".toList := by
    have hplus : TextAs " " ['+'] := ⟨[['+']], .cons (.plus rfl) .nil, rfl⟩
    exact textAs_append (textAs_append (textAs_self (by decide)) hplus)
      (textAs_self (by decide))
  have hlast : PairAs ("name", "cat") "name=cat".toList :=
    .both (textAs_self (by decide)) (textAs_self (by decide))
  exact ⟨_, .cons (.both hname hspace) (.cons (.bare (textAs_self (by decide)))
    (.cons hlast .nil)), by decide⟩

/-- The first of the two values is read, and a name that is not there is
missing. -/
theorem first_pair_is_read_twoNames :
    Query.WrittenAs twoNames twoNamesQuery
      ∧ ∃ uri, Uri.parse? ("/pets" ++ "?" ++ twoNamesQuery) = some uri
        ∧ uri.query = some twoNamesQuery
        ∧ ∀ c : Call, c.request.uri = uri →
          c.queryArgument .text "name" = .ok "big dog"
            ∧ Auth.key? c.request "flag" .query = some ""
            ∧ (Auth.Scheme.apiKey "flag" .query).credential? c.request = none
            ∧ c.queryArgument .text "tag" = .error (.missing "tag" .query) := by
  -- the target is parsed once, and the rest follows for any call with this target
  obtain ⟨uri, huri⟩ : ∃ uri,
      Uri.parse? ("/pets" ++ "?" ++ twoNamesQuery) = some uri := by
    refine Option.isSome_iff_exists.1 ?_
    decide +kernel
  have hwritten := written_twoNames
  have hquery := (first_pair_is_read hwritten (show "name" ≠ "" by decide)).1
    _ uri (by decide) (by decide) huri
  refine ⟨hwritten, uri, huri, hquery, ?_⟩
  rintro c rfl
  obtain ⟨-, hname, -⟩ := (first_pair_is_read hwritten
    (show "name" ≠ "" by decide)).2 c hquery
  obtain ⟨-, -, hflag, hkey⟩ := (first_pair_is_read hwritten
    (show "flag" ≠ "" by decide)).2 c hquery
  obtain ⟨-, htag, -⟩ := (first_pair_is_read hwritten
    (show "tag" ≠ "" by decide)).2 c hquery
  exact ⟨(hname String .text).2.1 "big dog" (by decide), hflag,
    hkey.trans (by decide), (htag String .text).1.2 (by decide)⟩

end Service

end ApiForge
