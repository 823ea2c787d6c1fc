import ApiForge.Proofs.Yaml.Leaf
import Mathlib.Data.Option.Basic
import Mathlib.Logic.Relation
/-!
The tokens of JSON text, read as a YAML stream.

A lexer `Waits` between two tokens: so many flow collections are open, so many tokens
have been read, and behind some white space there is a text still to come. Outside of
block collections no key is required where one is remembered, so remembering and
forgetting them never fails. Each token of JSON text is one step to where the lexer
waits again, and every step takes cells; a value is as many steps as it has tokens
(`lexes_text`, by the recursion of the form). The one place where it matters what is
remembered is a colon: the key in front of it must still be, and it is the token
before.
-/

namespace ApiForge.Yaml

open Text.Utf8 (encode)
open Json (Atom Form Key keyChars quoted plainText)

namespace Lexer

-- ================================================================ steps

/-- The lexer reads a token, and that is not the last. -/
def Steps (l m : Lexer) : Prop :=
  l.next = some m ∧ m.cells ≠ [] ∧ m.cells.length < l.cells.length

/-- The lexer reads some tokens. -/
abbrev Lexes : Lexer → Lexer → Prop := Relation.ReflTransGen Steps

/-- What a run does is what it does after some tokens, as long as there are steps left
for every cell. -/
theorem run_of_lexes {l m : Lexer} (h : Lexes l m) {steps : Nat}
    (hsteps : l.cells.length < steps) :
    ∃ left, m.cells.length < left ∧ run steps l = run left m := by
  induction h using Relation.ReflTransGen.head_induction_on generalizing steps with
  | refl => exact ⟨steps, hsteps, rfl⟩
  | @head l l' hstep _ ih =>
      obtain ⟨hnext, hcells, hless⟩ := hstep
      obtain ⟨steps, rfl⟩ := Nat.exists_eq_add_of_le' (Nat.one_le_of_lt hsteps)
      obtain ⟨left, hleft, hrun⟩ := ih (show l'.cells.length < steps by omega)
      refine ⟨left, hleft, Eq.trans ?_ hrun⟩
      have hmore : l'.cells.isEmpty = false := by
        rw [List.isEmpty_eq_false_iff]
        exact hcells
      rw [run, hnext]
      simp only [hmore]
      rfl

-- ================================================== what is remembered

/-- No key is required where one may have begun. -/
def Free (keys : List (Option PossibleKey)) : Prop :=
  ∀ p, some p ∈ keys → p.required = false

theorem free_cons {key : Option PossibleKey} {keys : List (Option PossibleKey)}
    (hkey : ∀ p, key = some p → p.required = false) (hkeys : Free keys) :
    Free (key :: keys) := by
  intro p hp
  rcases List.mem_cons.1 hp with rfl | hp
  · exact hkey p rfl
  · exact hkeys p hp

theorem Free.tail {keys : List (Option PossibleKey)} (h : Free keys) : Free keys.tail :=
  fun p hp => h p (List.mem_of_mem_tail hp)

variable {l : Lexer}

/-- The possible key of the innermost container is given up; it was not required. -/
theorem dropKey_eq (hfree : Free l.keys) (hkeys : l.keys ≠ []) :
    l.dropKey = some { l with keys := none :: l.keys.tail } := by
  obtain ⟨key, keys, hkeys⟩ := List.exists_cons_of_ne_nil hkeys
  rw [dropKey]
  cases key with
  | none =>
      obtain ⟨_, _, _, _, _, _⟩ := l
      subst hkeys
      rfl
  | some p =>
      have hp : p.required = false := hfree p (hkeys ▸ List.mem_cons_self)
      rw [hkeys]
      simp only [hp]
      rfl

/-- The possible keys when a token begins that may be one. -/
def noted (l : Lexer) : List (Option PossibleKey) :=
  if l.keyAllowed then some ⟨false, l.count, l.cells.headD default⟩ :: l.keys.tail
  else l.keys

/-- Where a key is allowed, it is noted that one may begin here. -/
theorem noteKey_eq (hfree : Free l.keys) (hkeys : l.keys ≠ []) (hblock : l.indents = []) :
    l.noteKey = some { l with keys := l.noted } := by
  rw [noteKey, dropKey_eq hfree hkeys]
  obtain ⟨cells, tokens, count, keyAllowed, keys, indents⟩ := l
  obtain rfl : indents = [] := hblock
  cases keyAllowed with
  | false => rfl
  | true => simp [noted]

/-- A key that is noted is not required. -/
theorem free_noted (hfree : Free l.keys) : Free l.noted := by
  rw [noted]
  split
  · refine free_cons (fun p hp => ?_) hfree.tail
    exact (Option.some.inj hp) ▸ rfl
  · exact hfree

/-- Noting a key opens and closes no container. -/
theorem length_noted (hkeys : l.keys ≠ []) : l.noted.length = l.keys.length := by
  rw [noted]
  split
  · rw [List.length_cons, List.length_tail]
    have := List.length_pos_of_ne_nil hkeys
    omega
  · rfl

/-- A possible key, unless a cell is too far from it. -/
def fresh (here : Cell) (key : Option PossibleKey) : Option PossibleKey :=
  key.filter fun p => !(p.cell.line < here.line || p.cell.offset + 1024 < here.offset)

/-- Giving up stale keys leaves no required one. -/
theorem free_fresh {keys : List (Option PossibleKey)} (h : Free keys) (here : Cell) :
    Free (keys.map (fresh here)) := by
  intro p hp
  obtain ⟨key, hkey, hfresh⟩ := List.mem_map.1 hp
  rw [fresh, Option.filter_eq_some_iff] at hfresh
  exact h p (hfresh.1 ▸ hkey)

/-- Stale keys are given up without an error, as none is required. -/
theorem dropStaleKeys_eq (hfree : Free l.keys) :
    l.dropStaleKeys
      = some { l with keys := l.keys.map (fresh (l.cells.headD default)) } := by
  have hall {f : Option PossibleKey → Option (Option PossibleKey)}
      {g : Option PossibleKey → Option PossibleKey} (keys : List (Option PossibleKey))
      (h : ∀ key ∈ keys, f key = some (g key)) : keys.mapM f = some (keys.map g) := by
    induction keys with
    | nil => rfl
    | cons key keys ih =>
        obtain ⟨hkey, hkeys⟩ := List.forall_mem_cons.1 h
        rw [List.mapM_cons, hkey, ih hkeys]
        rfl
  rw [dropStaleKeys]
  refine congrArg (· >>= fun keys => some { l with keys }) (hall l.keys ?_)
  intro key hkey
  cases key with
  | none => rfl
  | some p =>
      have hp : p.required = false := hfree p hkey
      simp only [hp, fresh, Option.filter_some]
      cases hstale : (decide (p.cell.line < (l.cells.headD default).line)
        || decide (p.cell.offset + 1024 < (l.cells.headD default).offset)) <;> rfl

/-- Without block structure there is nothing to close. -/
theorem closeBlocks_eq (hblock : l.indents = []) (keep : Nat → Bool) :
    l.closeBlocks keep = l := by
  unfold closeBlocks
  split
  · rfl
  · rw [hblock]
    obtain ⟨cells, tokens, count, keyAllowed, keys, indents⟩ := l
    obtain rfl : indents = [] := hblock
    rfl

-- ============================================================== waiting

/-- A lexer between two tokens of JSON text: `depth` flow collections are open, the
tokens `done` have been read, last first, and the text `cs` is still to come. -/
structure Waits (l : Lexer) (depth : Nat) (done : List Token) (cs : List Char) : Prop where
  keys : l.keys.length = depth + 1
  free : Free l.keys
  block : l.indents = []
  tokens : l.tokens = done
  /-- The text comes behind white space; outside of all collections that has no tab. -/
  text : ∃ (g : Json.Gap) (o n k : Nat),
    l.cells = placeFrom o n k (g.chars ++ cs) ∧ (depth = 0 → .tab ∉ g)

variable {m : Lexer} {depth : Nat} {done : List Token} {cs : List Char}

theorem Waits.keys_ne (h : Waits l depth done cs) : l.keys ≠ [] :=
  List.ne_nil_of_length_eq_add_one h.keys

/-- White space in front of the text does not matter. -/
theorem Waits.gap {g : Json.Gap} (h : Waits l depth done (g.chars ++ cs))
    (hg : depth = 0 → .tab ∉ g) : Waits l depth done cs where
  keys := h.keys
  free := h.free
  block := h.block
  tokens := h.tokens
  text := by
    obtain ⟨g', o, n, k, hcells, hg'⟩ := h.text
    refine ⟨g' ++ g, o, n, k, ?_, fun hd => ?_⟩
    · rw [hcells, Json.Gap.chars, Json.Gap.chars, Json.Gap.chars, List.map_append,
        List.append_assoc]
    · exact List.not_mem_append (hg' hd) (hg hd)

/-- A lexer has come to the next token: it has skipped what does not count, and
forgotten the keys that it is too far from. -/
def Meets (l m : Lexer) : Prop :=
  ∃ allowed cells, skipSpace l.inFlow l.keyAllowed false l.cells = (allowed, cells)
    ∧ { l with keyAllowed := allowed, cells }.dropStaleKeys = some m ∧ m.cells = cells

/-- A waiting lexer comes to the text. -/
theorem Waits.exists_meets (h : Waits l depth done cs) (hcs : Starts cs) :
    ∃ m o n k, Meets l m ∧ Waits m depth done cs ∧ m.cells = placeFrom o n k cs
      ∧ m.cells.length ≤ l.cells.length ∧ (l.keyAllowed = true → m.keyAllowed = true) := by
  obtain ⟨g, o, n, k, hcells, hg⟩ := h.text
  have hflow : l.inFlow = true ∨ .tab ∉ g := by
    rw [inFlow, h.keys]
    cases depth with
    | zero => exact .inr (hg rfl)
    | succ depth => exact .inl (decide_eq_true (by omega))
  obtain ⟨allowed, o', n', k', hskip, hkept⟩ :=
    skipSpace_gap l.keyAllowed g hflow hcs o n k
  rw [← hcells] at hskip
  refine ⟨_, o', n', k', ⟨allowed, _, hskip, dropStaleKeys_eq h.free, rfl⟩, ?_, rfl, ?_, hkept⟩
  · constructor
    case keys => exact (List.length_map _).trans h.keys
    case free => exact free_fresh h.free _
    case block => exact h.block
    case tokens => exact h.tokens
    case text => exact ⟨[], o', n', k', rfl, fun _ => List.not_mem_nil⟩
  · show (placeFrom o' n' k' cs).length ≤ l.cells.length
    rw [hcells]
    exact length_placeFrom_le ..

-- =============================================================== tokens

/-- Reads the token that begins with a mark. -/
def onMark (l : Lexer) (mark : Char) : Option Lexer :=
  match mark with
  | '[' => l.openFlow .flowSequenceStart
  | '\x7b' => l.openFlow .flowMappingStart
  | ']' => l.closeFlow .flowSequenceEnd
  | '\x7d' => l.closeFlow .flowMappingEnd
  | ':' => l.readValue
  | '"' =>
    l.readAtom fun cells => (readQuoted false [] .none .content (cells.drop 1)).map fun p =>
      (.scalar (String.ofList p.1) .quoted, p.2)
  | ',' => do
    let l' ← l.dropKey
    return { l' with keyAllowed := true }.emit .flowEntry (l.cells.drop 1)
  | _ => none

/-- A mark is read as such, a colon in flow context. -/
theorem next_mark {mark : Char} (hm : Meets l m) (hblock : m.indents = [])
    (hmark : mark ∈ ['[', '\x7b', ']', '\x7d', '"', ','] ∨ mark = ':' ∧ m.inFlow = true)
    (hpeek : peek m.cells = mark) : l.next = m.onMark mark := by
  obtain ⟨allowed, cells, hskip, hdrop, rfl⟩ := hm
  rw [next]
  simp only [hskip]
  rw [hdrop]
  simp only [hpeek, closeBlocks_eq hblock, Option.bind_eq_bind, Option.bind_some]
  simp only [List.mem_cons, List.not_mem_nil, or_false] at hmark
  rcases hmark with (rfl | rfl | rfl | rfl | rfl | rfl) | ⟨rfl, hflow⟩
  all_goals simp [atIndicator, hpeek, isEnd, onMark]
  · simp [hflow]

theorem placeFrom_ne_nil (o n k : Nat) (cs : List Char) : placeFrom o n k cs ≠ [] := by
  fun_cases placeFrom o n k cs <;> exact List.cons_ne_nil _ _

/-- A step from one place to a later one. -/
theorem steps_of_next {o n k o' n' k' : Nat} {c : Char} {w rest : List Char}
    (hflat : Flat c) (hnext : l.next = some m)
    (hle : (placeFrom o n k (c :: (w ++ rest))).length ≤ l.cells.length)
    (hm : m.cells = placeFrom o' n' k' rest) : Steps l m := by
  refine ⟨hnext, hm ▸ placeFrom_ne_nil o' n' k' rest, ?_⟩
  rw [placeFrom_flat hflat, List.length_cons] at hle
  have hrest := length_placeFrom_le o' n' k' (o + c.utf8Size) n (k + 1) w rest
  rw [hm]
  omega

/-- A waiting lexer comes to a mark. -/
theorem Waits.exists_mark {mark : Char} {rest : List Char}
    (h : Waits l depth done (mark :: rest))
    (hmark : mark ∈ ['[', '\x7b', ']', '\x7d', '"', ',']) :
    ∃ m o n k, l.next = m.onMark mark ∧ Waits m depth done (mark :: rest)
      ∧ m.cells = ⟨mark, o, n, k⟩ :: placeFrom (o + 1) n (k + 1) rest
      ∧ (placeFrom o n k (mark :: rest)).length ≤ l.cells.length
      ∧ (l.keyAllowed = true → m.keyAllowed = true) := by
  have hmarks : ∀ c ∈ ['[', '\x7b', ']', '\x7d', '"', ','],
      isTokenStart c = true ∧ c.utf8Size = 1 := by
    simp only [List.forall_mem_cons, List.not_mem_nil, false_implies, implies_true, and_true]
    decide
  obtain ⟨hstart, hsize⟩ := hmarks mark hmark
  obtain ⟨m, o, n, k, hmeets, hm, hcells, hle, hallowed⟩ :=
    h.exists_meets (starts_cons hstart rest)
  have hplaced := hcells
  rw [placeFrom_flat (of_isTokenStart hstart).1, hsize] at hplaced
  refine ⟨m, o, n, k, next_mark hmeets hm.block (.inl hmark) ?_, hm, hplaced, ?_, hallowed⟩
  · rw [hplaced]
    rfl
  · exact hcells ▸ hle

/-- A list or an object begins. -/
theorem Waits.opens {mark : Char} {t : Token} {rest : List Char}
    (h : Waits l depth done (mark :: rest))
    (ht : mark = '[' ∧ t = .flowSequenceStart ∨ mark = '\x7b' ∧ t = .flowMappingStart) :
    ∃ m, Steps l m ∧ Waits m (depth + 1) (t :: done) rest ∧ m.keyAllowed = true := by
  obtain ⟨m, o, n, k, hnext, hm, hcells, hle, -⟩ := h.exists_mark (by
    rcases ht with ⟨rfl, -⟩ | ⟨rfl, -⟩ <;> decide)
  obtain ⟨hmark, hflat⟩ : m.onMark mark = m.openFlow t ∧ Flat mark := by
    rcases ht with ⟨rfl, rfl⟩ | ⟨rfl, rfl⟩ <;> exact ⟨rfl, by decide⟩
  rw [hmark, openFlow, noteKey_eq hm.free hm.keys_ne hm.block] at hnext
  have hrest : m.cells.drop 1 = placeFrom (o + 1) n (k + 1) rest := by rw [hcells]; rfl
  refine ⟨_, steps_of_next (w := []) hflat hnext hle hrest, ?_, rfl⟩
  constructor
  case keys => exact congrArg (· + 1) ((length_noted hm.keys_ne).trans hm.keys)
  case free => exact free_cons (fun p hp => nomatch hp) (free_noted hm.free)
  case block => exact hm.block
  case tokens => exact congrArg (t :: ·) hm.tokens
  case text => exact ⟨[], _, _, _, hrest, fun _ => List.not_mem_nil⟩

/-- A list or an object ends. -/
theorem Waits.closes {mark : Char} {t : Token} {rest : List Char}
    (h : Waits l (depth + 1) done (mark :: rest))
    (ht : mark = ']' ∧ t = .flowSequenceEnd ∨ mark = '\x7d' ∧ t = .flowMappingEnd) :
    ∃ m, Steps l m ∧ Waits m depth (t :: done) rest := by
  obtain ⟨m, o, n, k, hnext, hm, hcells, hle, -⟩ := h.exists_mark (by
    rcases ht with ⟨rfl, -⟩ | ⟨rfl, -⟩ <;> decide)
  obtain ⟨hmark, hflat⟩ : m.onMark mark = m.closeFlow t ∧ Flat mark := by
    rcases ht with ⟨rfl, rfl⟩ | ⟨rfl, rfl⟩ <;> exact ⟨rfl, by decide⟩
  rw [hmark, closeFlow, dropKey_eq hm.free hm.keys_ne] at hnext
  have hrest : m.cells.drop 1 = placeFrom (o + 1) n (k + 1) rest := by rw [hcells]; rfl
  have hlength := hm.keys
  -- the container that ends is not the document, so one is still open behind it
  have hflow : ({ m with keys := none :: m.keys.tail } : Lexer).inFlow = true := by
    refine decide_eq_true ?_
    show 1 < m.keys.tail.length + 1
    rw [List.length_tail]
    omega
  refine ⟨_, steps_of_next (w := []) hflat hnext hle hrest, ?_⟩
  constructor
  case keys =>
    show (if _ then m.keys.tail else _).length = _
    rw [if_pos hflow, List.length_tail]
    omega
  case free =>
    show Free (if _ then m.keys.tail else _)
    rw [if_pos hflow]
    exact hm.free.tail
  case block => exact hm.block
  case tokens => exact congrArg (t :: ·) hm.tokens
  case text => exact ⟨[], _, _, _, hrest, fun _ => List.not_mem_nil⟩

/-- A comma; a key may begin behind it. -/
theorem Waits.comma {rest : List Char} (h : Waits l depth done (',' :: rest)) :
    ∃ m, Steps l m ∧ Waits m depth (.flowEntry :: done) rest ∧ m.keyAllowed = true := by
  obtain ⟨m, o, n, k, hnext, hm, hcells, hle, -⟩ := h.exists_mark (by decide)
  rw [onMark, dropKey_eq hm.free hm.keys_ne] at hnext
  have hrest : m.cells.drop 1 = placeFrom (o + 1) n (k + 1) rest := by rw [hcells]; rfl
  have hlength := hm.keys
  refine ⟨_, steps_of_next (w := []) (by decide) hnext hle hrest, ?_, rfl⟩
  constructor
  case keys =>
    show m.keys.tail.length + 1 = depth + 1
    rw [List.length_tail]
    omega
  case free => exact free_cons (fun p hp => nomatch hp) hm.free.tail
  case block => exact hm.block
  case tokens => exact congrArg (Token.flowEntry :: ·) hm.tokens
  case text => exact ⟨[], _, _, _, hrest, fun _ => List.not_mem_nil⟩

/-- A string. Where a key may begin, it is remembered that it began here. -/
theorem Waits.string {atoms : List Atom} {rest : List Char}
    (h : Waits l depth done (quoted atoms ++ rest)) (hatoms : ∀ a ∈ atoms, a.Shared) :
    ∃ m o n k, Steps l m
      ∧ Waits m depth (.scalar (plainText atoms) .quoted :: done) rest
      ∧ m.cells = placeFrom (o + (encode (quoted atoms)).length) n k rest
      ∧ m.keyAllowed = false
      ∧ (l.keyAllowed = true → ∃ p keys, m.keys = some p :: keys
        ∧ p.required = false ∧ p.cell.offset = o ∧ p.cell.line = n ∧ m.count = p.position + 1) := by
  have hquoted : quoted atoms ++ rest = '"' :: (Json.atomChars atoms ++ '"' :: rest) := by
    rw [quoted, List.cons_append, List.append_assoc]
    rfl
  rw [hquoted] at h
  obtain ⟨m, o, n, k, hnext, hm, hcells, hle, hallowed⟩ := h.exists_mark (by decide)
  obtain ⟨k', hread⟩ := readQuoted_atoms [] rest (o := o + 1) (n := n) hatoms
    (rfl : Gap.hasBreak .none = false) (Nat.succ_pos k)
  have hdrop : m.cells.drop 1
      = placeFrom (o + 1) n (k + 1) (Json.atomChars atoms ++ '"' :: rest) := by
    rw [hcells]
    rfl
  -- the key begins where the string does, and ends with its last quote
  have hlength : o + 1 + (encode (Json.atomChars atoms ++ ['"'])).length
      = o + (encode (quoted atoms)).length := by
    rw [quoted, length_encode_cons, Nat.add_assoc]
    rfl
  rw [hlength] at hread
  rw [onMark, readAtom, noteKey_eq hm.free hm.keys_ne hm.block] at hnext
  simp only [Option.bind_eq_bind, Option.bind_some, hdrop, hread, Option.map_some] at hnext
  have hflat : Flat '"' := by decide
  have hplaced : (placeFrom o n k ('"' :: ((Json.atomChars atoms ++ ['"']) ++ rest))).length
      ≤ l.cells.length := by
    rw [List.append_assoc]
    exact hle
  refine ⟨_, o, n, k', steps_of_next hflat hnext hplaced rfl, ?_, rfl, rfl, fun hl => ?_⟩
  · constructor
    case keys => exact (length_noted hm.keys_ne).trans hm.keys
    case free => exact free_noted hm.free
    case block => exact hm.block
    case tokens => exact congrArg (_ :: ·) hm.tokens
    case text => exact ⟨[], _, _, _, rfl, fun _ => List.not_mem_nil⟩
  · refine ⟨⟨false, m.count, m.cells.headD default⟩, m.keys.tail, ?_, rfl, ?_, ?_, rfl⟩
    · exact if_pos (hallowed hl)
    · rw [hcells]; rfl
    · rw [hcells]; rfl

/-- White space has an octet for each of its characters. -/
theorem length_encode_gap (g : Json.Gap) : (encode g.chars).length = g.length := by
  induction g with
  | nil => rfl
  | cons w g ih =>
      have hsize : w.char.utf8Size = 1 := by cases w <;> rfl
      rw [Json.Gap.chars, List.map_cons, length_encode_cons, hsize, List.length_cons,
        Nat.add_comm]
      exact congrArg (· + 1) ih

/-- A colon behind a token that is remembered as a key. -/
theorem readValue_eq {p : PossibleKey} {keys : List (Option PossibleKey)} {t : Token}
    (hflow : l.inFlow = true) (hkeys : l.keys = some p :: keys) (htokens : l.tokens = t :: done)
    (hcount : l.count = p.position + 1) :
    l.readValue = some { l with
      cells := l.cells.drop 1, tokens := .value :: t :: .key :: done, count := l.count + 2
      keyAllowed := false, keys := none :: keys } := by
  obtain ⟨cells, tokens, count, keyAllowed, keys, indents⟩ := l
  obtain rfl : keys = _ := hkeys
  obtain rfl : tokens = _ := htokens
  obtain rfl : count = _ := hcount
  have hlater : p.position + 1 - p.position = 1 := Nat.add_sub_cancel_left ..
  have hinner : (decide (1 < keys.length + 1)) = true := hflow
  simp only [readValue, insertAt, hlater, openBlock, inFlow, List.length_cons, hinner]
  rfl

/-- A key and its colon. When the colon is met the key is still remembered, and it is
the token before. -/
theorem Waits.key {k : Key} {rest : List Char}
    (h : Waits l (depth + 1) done (quoted k.body ++ (k.after.chars ++ ':' :: rest)))
    (hallowed : l.keyAllowed = true) (hk : Key.Shared k) :
    ∃ m, Lexes l m
      ∧ Waits m (depth + 1) (.value :: .scalar (plainText k.body) .quoted :: .key :: done)
          rest := by
  obtain ⟨m, o, n, col, hstep, hm, hcells, hforbidden, hkeys⟩ := h.string hk.atoms
  obtain ⟨p, keys, hkeys, hp, hoffset, hline, hcount⟩ := hkeys hallowed
  have hlength := hm.keys
  rw [hkeys, List.length_cons] at hlength
  generalize hplace : o + (encode (quoted k.body)).length + k.after.length = o'
  generalize hhere : (⟨':', o', n, col + k.after.length⟩ : Cell) = here
  have hskip : skipSpace m.inFlow m.keyAllowed false m.cells
      = (m.keyAllowed, placeFrom o' n (col + k.after.length) (':' :: rest)) := by
    rw [hcells, skipSpace_blanks (.inr hforbidden) hk.blank, hplace]
    exact skipSpace_starts _ _ (starts_cons rfl rest)
  -- the key is on the same line, and near enough
  have hfresh : fresh here (some p) = some p := by
    have hnear := hk.near
    have happend : encode (quoted k.body ++ k.after.chars)
        = encode (quoted k.body) ++ encode k.after.chars := List.flatMap_append
    rw [happend, List.length_append, length_encode_gap] at hnear
    subst hhere
    have hline' : decide (p.cell.line < n) = false := decide_eq_false (by omega)
    have hoffset' : decide (p.cell.offset + 1024 < o') = false := decide_eq_false (by omega)
    rw [fresh, Option.filter_some, hline', hoffset']
    rfl
  obtain ⟨m', hm'⟩ : ∃ m' : Lexer, m' = { m with
      cells := placeFrom o' n (col + k.after.length) (':' :: rest)
      keys := m.keys.map (fresh here) } := ⟨_, rfl⟩
  have hmeets : Meets m m' := by
    subst hm' hhere
    exact ⟨_, _, hskip, dropStaleKeys_eq hm.free, rfl⟩
  have hkeys' : m'.keys = some p :: keys.map (fresh here) := by
    rw [hm', hkeys, List.map_cons, hfresh]
  have hflow : m'.inFlow = true :=
    decide_eq_true (by rw [hkeys', List.length_cons, List.length_map]; omega)
  have hnext : m.next = m'.readValue := next_mark hmeets (by rw [hm']; exact hm.block)
    (.inr ⟨rfl, hflow⟩) (by rw [hm']; rfl)
  rw [readValue_eq hflow hkeys' (by rw [hm']; exact hm.tokens) (by rw [hm']; exact hcount)]
    at hnext
  have hplaced : (placeFrom o' n (col + k.after.length) (':' :: ([] ++ rest))).length
      ≤ m.cells.length := by
    rw [hcells]
    exact length_placeFrom_le ..
  have hflat : Flat ':' := by decide
  have hsteps : Steps m _ := steps_of_next hflat hnext hplaced (by rw [hm']; rfl)
  refine ⟨_, .tail (.single hstep) hsteps, ?_⟩
  constructor
  case keys =>
    show (keys.map _).length + 1 = _
    rw [List.length_map, hlength]
  case free =>
    have hkeys'' : Free (some p :: keys) := hkeys ▸ hm.free
    exact free_cons (fun p hp => nomatch hp) (free_fresh hkeys''.tail here)
  case block => exact (congrArg Lexer.indents hm').trans hm.block
  case tokens => rfl
  case text => exact ⟨[], _, _, _, by rw [hm']; rfl, fun _ => List.not_mem_nil⟩

/-- A word begins with a letter or digit, or with a minus sign in front of one. -/
inductive StartsWord : List Char → Prop
  | letter {c : Char} {rest : List Char} (hc : c.isAlphanum = true) : StartsWord (c :: rest)
  | minus {c : Char} {rest : List Char} (hc : c.isAlphanum = true) :
      StartsWord ('-' :: c :: rest)

/-- A letter or digit is nothing else. -/
theorem of_isAlphanum {c : Char} (hc : c.isAlphanum = true) :
    isBlankOrEnd c = false ∧ isIndicator c = false ∧ c ≠ '-' ∧ c ≠ '.' ∧ Flat c := by
  refine ApiForge.Text.forall_ascii (P := fun c => c.isAlphanum = true →
    isBlankOrEnd c = false ∧ isIndicator c = false ∧ c ≠ '-' ∧ c ≠ '.' ∧ Flat c)
    ?_ (ApiForge.Text.toNat_lt_of_isAlphanum hc) hc
  decide +kernel

/-- Where a word or a number starts, a plain scalar is read. -/
theorem next_word {w : List Char} {o n k : Nat} (hm : Meets l m) (hblock : m.indents = [])
    (hcells : m.cells = placeFrom o n k w) (hword : StartsWord w) :
    l.next = m.readPlainToken := by
  obtain ⟨allowed, cells, hskip, hdrop, rfl⟩ := hm
  rw [next]
  simp only [hskip]
  rw [hdrop]
  simp only [closeBlocks_eq hblock, Option.bind_eq_bind, Option.bind_some]
  cases hword with
  | @letter c rest hc =>
      obtain ⟨hend, hindicator, -, hpoint, hflat⟩ := of_isAlphanum hc
      have hpeek : peek m.cells = c := by rw [hcells, placeFrom_flat hflat]; rfl
      have hne (d : Char) (hd : isIndicator d = true) : (c == d) = false := by
        refine beq_eq_false_iff_ne.2 fun h => ?_
        rw [h, hd] at hindicator
        cases hindicator
      have hstream : isEnd c = false := (Bool.or_eq_false_iff.1 (Bool.or_eq_false_iff.1 hend).2).2
      -- a letter or digit is none of the characters with a meaning of their own
      simp [atIndicator, startsPlain, hpeek, hpoint, hend, hstream, hindicator, hne '%' rfl,
        hne '-' rfl, hne '[' rfl, hne '\x7b' rfl, hne ']' rfl, hne '\x7d' rfl, hne ',' rfl,
        hne '?' rfl, hne ':' rfl, hne '*' rfl, hne '&' rfl, hne '!' rfl, hne '|' rfl,
        hne '>' rfl, hne '\'' rfl, hne '"' rfl]
  | @minus c rest hc =>
      obtain ⟨hend, hindicator, hminus, -, hflat⟩ := of_isAlphanum hc
      have hpeek : peek m.cells = '-' := by rw [hcells]; rfl
      have hpeekAt : peekAt 1 m.cells = c := by
        rw [hcells, placeFrom_flat (by decide), placeFrom_flat hflat]
        rfl
      have hblank : isBlank c = false := (Bool.or_eq_false_iff.1 hend).1
      -- a minus before a letter or digit begins neither an item nor a document
      simp [atIndicator, startsPlain, hpeek, hpeekAt, hend, hminus, hblank, isEnd]

theorem StartsWord.append {w : List Char} (h : StartsWord w) (rest : List Char) :
    StartsWord (w ++ rest) := by
  cases h with
  | letter hc => exact .letter hc
  | minus hc => exact .minus hc

theorem StartsWord.starts {w : List Char} (h : StartsWord w) : Starts w := by
  cases h with
  | letter hc => exact starts_cons (by simp [isTokenStart, hc]) _
  | minus hc => exact starts_cons rfl _

/-- The token of a plain scalar is added, and a key may have begun with it. -/
theorem readPlainToken_eq {p : Plain} (hfree : Free l.keys) (hflow : l.inFlow = true)
    (hblock : l.indents = []) (hread : readPlain true 0 [] .none l.cells = some p) :
    l.readPlainToken = some { l with
      cells := p.rest, tokens := .scalar (String.ofList p.text) .plain :: l.tokens
      count := l.count + 1, keyAllowed := p.endedLine, keys := l.noted } := by
  have hkeys : l.keys ≠ [] := by
    refine List.ne_nil_of_length_pos ?_
    have := of_decide_eq_true hflow
    omega
  have hinner : ({ l with keys := l.noted } : Lexer).inFlow = true := by
    rw [inFlow, length_noted hkeys]
    exact hflow
  rw [readPlainToken, noteKey_eq hfree hkeys hblock]
  simp only [Option.bind_eq_bind, Option.bind_some, hinner]
  simp only [hblock, hread]
  rfl

/-- A word or a number, in a list or an object. -/
theorem Waits.word {w : List Char} {g : Json.Gap} {c : Char} {rest : List Char}
    (h : Waits l (depth + 1) done (w ++ (g.chars ++ c :: rest)))
    (hw : ∀ d ∈ w, isWordChar d = true) (hstart : StartsWord w) (hc : isCloser c = true) :
    ∃ m, Steps l m
      ∧ Waits m (depth + 1) (.scalar (String.ofList w) .plain :: done) (c :: rest) := by
  have hword := hstart.append (g.chars ++ c :: rest)
  obtain ⟨m, o, n, k, hmeets, hm, hcells, hle, -⟩ := h.exists_meets hword.starts
  obtain ⟨o', n', k', ended, hread⟩ := readPlain_word [] rest (o := o) (n := n) (k := k) hw hc
    g
  -- in a container, so that a comma or a bracket ends the scalar
  have hflow : m.inFlow = true := decide_eq_true (by rw [hm.keys]; omega)
  have hnext := (next_word hmeets hm.block hcells hword).trans
    (readPlainToken_eq hm.free hflow hm.block (by rw [hcells]; exact hread))
  obtain ⟨d, w, rfl⟩ : ∃ d w', w = d :: w' := by cases hstart <;> exact ⟨_, _, rfl⟩
  have hplaced : (placeFrom o n k (d :: ((w ++ g.chars) ++ c :: rest))).length
      ≤ l.cells.length := by
    rw [List.append_assoc]
    exact hcells ▸ hle
  have hflat := (of_isWordChar (hw d List.mem_cons_self)).1
  refine ⟨_, steps_of_next hflat hnext hplaced rfl, ?_⟩
  constructor
  case keys => exact (length_noted hm.keys_ne).trans hm.keys
  case free => exact free_noted hm.free
  case block => exact hm.block
  case tokens => exact congrArg (_ :: ·) hm.tokens
  case text => exact ⟨[], _, _, _, rfl, fun _ => List.not_mem_nil⟩

/-- A digit follows the minus sign of a number. -/
theorem exists_digit {rest : List Char} {e : Json.Number.Lexeme}
    (h : Json.Number.lexeme? ('-' :: rest) = some e) :
    ∃ d more, rest = d :: more ∧ d.isDigit = true := by
  cases rest with
  | nil => cases h
  | cons d more =>
      refine ⟨d, more, rfl, ?_⟩
      by_contra hd
      have hnone : (d :: more).takeWhile Char.isDigit = [] := by
        rw [List.takeWhile_cons, if_neg hd]
      have hrefused : Json.Number.lexeme? ('-' :: d :: more) = none := by
        rw [Json.Number.lexeme?]
        dsimp only
        rw [hnone]
        rfl
      rw [hrefused] at h
      cases h

theorem isAlphanum_of_isDigit {c : Char} (h : c.isDigit = true) : c.isAlphanum = true :=
  Bool.or_eq_true_iff.2 (.inr h)

/-- A number is a word. -/
theorem word_numeral (n : Json.Numeral) :
    StartsWord n.chars ∧ ∀ c ∈ n.chars, isWordChar c = true := by
  obtain ⟨e, he⟩ := Option.isSome_iff_exists.1 n.isNumber
  obtain ⟨⟨c, rest, hchars, hc⟩, hnumber⟩ := Json.Text.of_lexeme? he
  constructor
  · rw [hchars] at he ⊢
    rcases hc with rfl | hc
    · obtain ⟨d, more, rfl, hd⟩ := exists_digit he
      exact .minus (isAlphanum_of_isDigit hd)
    · exact .letter (isAlphanum_of_isDigit hc)
  · intro c hc
    have hnumber := hnumber c hc
    simp only [Json.Text.isNumberChar, Bool.or_eq_true, beq_iff_eq] at hnumber
    rcases hnumber with ((((h | rfl) | rfl) | rfl) | rfl) | rfl
    · simp [isWordChar, isAlphanum_of_isDigit h]
    all_goals rfl

-- =============================================================== values

/-- Behind an item comes a comma or the end of the list. -/
theorem exists_closer_items (rest : List (Json.Slot Form)) (cs : List Char) :
    ∃ c cs', Form.itemsText rest ++ ']' :: cs = c :: cs' ∧ isCloser c = true := by
  cases rest with
  | nil => exact ⟨']', cs, rfl, rfl⟩
  | cons i rest => exact ⟨',', _, rfl, rfl⟩

/-- Behind a member comes a comma or the end of the object. -/
theorem exists_closer_members (rest : List (Key × Json.Slot Form)) (cs : List Char) :
    ∃ c cs', Form.membersText rest ++ '\x7d' :: cs = c :: cs' ∧ isCloser c = true := by
  cases rest with
  | nil => exact ⟨'\x7d', cs, rfl, rfl⟩
  | cons i rest => exact ⟨',', _, rfl, rfl⟩


/-- What must stand behind a value and some white space: a comma or the end of what it
is in, unless it is all of the text. -/
def Ends (f : Form) (depth : Nat) (cs : List Char) : Prop :=
  f.IsContainer ∨ 0 < depth ∧ ∃ c rest, cs = c :: rest ∧ isCloser c = true

/-- A word ends where a value does. -/
theorem Waits.leaf {f : Form} {g : Json.Gap} {w : List Char}
    (h : Waits l depth done (w ++ (g.chars ++ cs))) (hf : ¬ f.IsContainer)
    (hend : Ends f depth cs) (hw : ∀ c ∈ w, isWordChar c = true) (hstart : StartsWord w) :
    ∃ m, Lexes l m ∧ Waits m depth (.scalar (String.ofList w) .plain :: done) cs := by
  obtain ⟨hdepth, c, rest, rfl, hc⟩ := hend.resolve_left hf
  obtain ⟨depth, rfl⟩ := Nat.exists_eq_add_of_le' hdepth
  obtain ⟨m, hstep, hm⟩ := h.word hw hstart hc
  exact ⟨m, .single hstep, hm⟩

/-- Inside of a collection there may be tabs anywhere. -/
theorem inner {g : Json.Gap} (h : depth + 1 = 0) : .tab ∉ g := nomatch h

mutual

/-- A value is lexed to its tokens. -/
theorem lexes_text (f : Form) (hf : f.Shared) {g : Json.Gap} {l : Lexer} {depth : Nat}
    {done : List Token} {cs : List Char} (h : Waits l depth done (f.text ++ (g.chars ++ cs)))
    (hg : depth = 0 → .tab ∉ g) (hend : Ends f depth cs) :
    ∃ m, Lexes l m ∧ Waits m depth (f.tokens.reverse ++ done) cs := by
  -- by the recursion of the form, together with the further items and members
  match f with
  | .null => exact h.leaf id hend (List.all_eq_true.1 rfl) (.letter rfl)
  | .bool true => exact h.leaf id hend (List.all_eq_true.1 rfl) (.letter rfl)
  | .bool false => exact h.leaf id hend (List.all_eq_true.1 rfl) (.letter rfl)
  | .number n =>
      obtain ⟨hstart, hchars⟩ := word_numeral n
      exact h.leaf id hend hchars hstart
  | .string atoms =>
      obtain ⟨m, -, -, -, hstep, hm, -⟩ := h.string hf
      exact ⟨m, .single hstep, hm.gap hg⟩
  | .noItems gap =>
      rw [Form.text, List.cons_append, List.append_assoc] at h
      obtain ⟨m, hopen, hm, -⟩ := h.opens (.inl ⟨rfl, rfl⟩)
      obtain ⟨m', hclose, hm'⟩ := (hm.gap inner).closes (.inl ⟨rfl, rfl⟩)
      exact ⟨m', .tail (.single hopen) hclose, hm'.gap hg⟩
  | .noMembers gap =>
      rw [Form.text, List.cons_append, List.append_assoc] at h
      obtain ⟨m, hopen, hm, -⟩ := h.opens (.inr ⟨rfl, rfl⟩)
      obtain ⟨m', hclose, hm'⟩ := (hm.gap inner).closes (.inr ⟨rfl, rfl⟩)
      exact ⟨m', .tail (.single hopen) hclose, hm'.gap hg⟩
  | .items ⟨before, f, after⟩ rest =>
      simp only [Form.text, List.cons_append, List.append_assoc, List.nil_append] at h
      obtain ⟨m, hopen, hm, -⟩ := h.opens (.inl ⟨rfl, rfl⟩)
      obtain ⟨m', hfirst, hm'⟩ := lexes_text f hf.1 (hm.gap inner) inner
        (.inr ⟨Nat.succ_pos _, exists_closer_items rest _⟩)
      obtain ⟨m'', hrest, hm''⟩ := lexes_itemsText rest hf.2 hm'
      refine ⟨m'', .trans (.head hopen hfirst) hrest, ?_⟩
      simp only [Form.tokens, List.reverse_cons, List.reverse_append, List.append_assoc,
        List.cons_append, List.nil_append]
      exact hm''.gap hg
  | .members (k, ⟨before, f, after⟩) rest =>
      simp only [Form.text, keyChars, List.cons_append, List.append_assoc, List.nil_append]
        at h
      obtain ⟨m, hopen, hm, hallowed⟩ := h.opens (.inr ⟨rfl, rfl⟩)
      obtain ⟨m', hkey, hm'⟩ := (hm.gap inner).key hallowed hf.1
      obtain ⟨m'', hfirst, hm''⟩ := lexes_text f hf.2.1 (hm'.gap inner) inner
        (.inr ⟨Nat.succ_pos _, exists_closer_members rest _⟩)
      obtain ⟨m₃, hrest, hm₃⟩ := lexes_membersText rest hf.2.2 hm''
      refine ⟨m₃, .trans (.trans (.head hopen hkey) hfirst) hrest, ?_⟩
      simp only [Form.tokens, List.reverse_cons, List.reverse_append, List.append_assoc,
        List.cons_append, List.nil_append]
      exact hm₃.gap hg

/-- So are the items behind the first, with the end of the list. -/
theorem lexes_itemsText (rest : List (Json.Slot Form)) (hrest : Form.ItemsShared rest) {l : Lexer}
    {depth : Nat} {done : List Token} {cs : List Char}
    (h : Waits l (depth + 1) done (Form.itemsText rest ++ ']' :: cs)) :
    ∃ m, Lexes l m ∧ Waits m depth ((Form.itemTokens rest).reverse ++ done) cs := by
  match rest with
  | [] =>
      obtain ⟨m, hclose, hm⟩ := h.closes (.inl ⟨rfl, rfl⟩)
      exact ⟨m, .single hclose, hm⟩
  | ⟨before, f, after⟩ :: rest =>
      simp only [Form.itemsText, List.cons_append, List.append_assoc] at h
      obtain ⟨m, hcomma, hm, -⟩ := h.comma
      obtain ⟨m', hfirst, hm'⟩ := lexes_text f hrest.1 (hm.gap inner) inner
        (.inr ⟨Nat.succ_pos _, exists_closer_items rest _⟩)
      obtain ⟨m'', hmore, hm''⟩ := lexes_itemsText rest hrest.2 hm'
      refine ⟨m'', .trans (.head hcomma hfirst) hmore, ?_⟩
      simp only [Form.itemTokens, List.reverse_cons, List.reverse_append, List.append_assoc,
        List.cons_append, List.nil_append]
      exact hm''

/-- So are the members behind the first, with the end of the object. -/
theorem lexes_membersText (rest : List (Key × Json.Slot Form)) (hrest : Form.MembersShared rest)
    {l : Lexer} {depth : Nat} {done : List Token} {cs : List Char}
    (h : Waits l (depth + 1) done (Form.membersText rest ++ '\x7d' :: cs)) :
    ∃ m, Lexes l m ∧ Waits m depth ((Form.memberTokens rest).reverse ++ done) cs := by
  match rest with
  | [] =>
      obtain ⟨m, hclose, hm⟩ := h.closes (.inr ⟨rfl, rfl⟩)
      exact ⟨m, .single hclose, hm⟩
  | (k, ⟨before, f, after⟩) :: rest =>
      simp only [Form.membersText, keyChars, List.cons_append, List.append_assoc,
        List.nil_append] at h
      obtain ⟨m, hcomma, hm, hallowed⟩ := h.comma
      obtain ⟨m', hkey, hm'⟩ := (hm.gap inner).key hallowed hrest.1
      obtain ⟨m'', hfirst, hm''⟩ := lexes_text f hrest.2.1 (hm'.gap inner) inner
        (.inr ⟨Nat.succ_pos _, exists_closer_members rest _⟩)
      obtain ⟨m₃, hmore, hm₃⟩ := lexes_membersText rest hrest.2.2 hm''
      refine ⟨m₃, .trans (.trans (.head hcomma hkey) hfirst) hmore, ?_⟩
      simp only [Form.memberTokens, List.reverse_cons, List.reverse_append, List.append_assoc,
        List.cons_append, List.nil_append]
      exact hm₃

end

-- =============================================================== streams

/-- Where a text has ended the stream does. -/
theorem Waits.ends (h : Waits l 0 done []) :
    ∃ m, l.next = some m ∧ m.cells = [] ∧ m.tokens = .streamEnd :: done := by
  obtain ⟨m, o, n, k, hmeets, hm, hcells, -⟩ := h.exists_meets fun c hc => nomatch hc
  have hnext : l.next = m.readEnd := by
    obtain ⟨allowed, cells, hskip, hdrop, rfl⟩ := hmeets
    rw [next]
    simp only [hskip]
    rw [hdrop]
    simp only [closeBlocks_eq hm.block, Option.bind_eq_bind, Option.bind_some]
    rw [hcells]
    rfl
  rw [readEnd, closeBlocks_eq hm.block, dropKey_eq hm.free hm.keys_ne] at hnext
  exact ⟨_, hnext, rfl, congrArg (Token.streamEnd :: ·) hm.tokens⟩

end Lexer

/-- The tokens of a list or object with white space around it. -/
theorem tokens?_text {f : Form} (hf : f.Shared) (hcontainer : f.IsContainer)
    {before after : Json.Gap} (hbefore : .tab ∉ before) (hafter : .tab ∉ after) :
    tokens? (place (before.chars ++ (f.text ++ after.chars)))
      = some (f.tokens ++ [.streamEnd]) := by
  obtain ⟨l, hl⟩ : ∃ l : Lexer,
      l = { cells := place (before.chars ++ (f.text ++ after.chars)) } := ⟨_, rfl⟩
  -- the lexer starts outside of all containers, with nothing lexed
  have hwaits : l.Waits 0 [] (f.text ++ (after.chars ++ [])) := by
    rw [List.append_nil]
    constructor
    case keys => rw [hl]; rfl
    case free =>
      rw [hl]
      intro p hp
      cases List.mem_singleton.1 hp
    case block => rw [hl]
    case tokens => rw [hl]
    case text => exact ⟨before, 0, 0, 0, by rw [hl]; rfl, fun _ => hbefore⟩
  obtain ⟨m, hlexes, hm⟩ := Lexer.lexes_text f hf hwaits (fun _ => hafter) (.inl hcontainer)
  obtain ⟨e, hnext, hcells, htokens⟩ := hm.ends
  obtain ⟨left, hleft, hrun⟩ := Lexer.run_of_lexes hlexes (Nat.lt_succ_self _)
  obtain ⟨left, rfl⟩ := Nat.exists_eq_add_of_le' (Nat.one_le_of_lt hleft)
  have hlast : Lexer.run (left + 1) m = some e := by
    rw [Lexer.run, hnext]
    simp only [hcells]
    rfl
  rw [hlast] at hrun
  subst hl
  rw [tokens?, hrun, Option.map_some, htokens, List.append_nil, List.reverse_cons,
    List.reverse_reverse]

end ApiForge.Yaml
