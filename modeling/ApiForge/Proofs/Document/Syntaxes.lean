import ApiForge.Proofs.Document.Mirror
import ApiForge.Proofs.Json.Printed
import ApiForge.Proofs.Yaml.Number
import ApiForge.Proofs.Yaml.Stream
/-!
JSON documents, loaded as YAML.

What a form denotes in JSON and the node that YAML makes of it hold the same
(`Form.twin_treeAt`), and JSON reads nothing that nests too deep for YAML
(`Form.height_treeAt`). So a document that loads as JSON loads as YAML and is the same,
as far as both syntaxes read its text alike and its records are given by name
(`load_yaml_of_load_json`). Not all JSON text is read alike: YAML refuses a character
that is written by the numbers of its halves (`load_pairedEscape`).
-/

namespace ApiForge

open Json (Form Slot Key Numeral Atom textTree plainText atDepth)
open Text.Utf8 (encode)

namespace Json

-- ================================================================ leaves

/-- A number holds the same as the word that its characters are. -/
theorem Numeral.twin {n : Numeral} (h : n.Shared) :
    n.tree.Twin (.scalar none (String.ofList n.chars) .plain) := by
  rcases h with h | h
  · rw [h]
    exact .unreadable (.word n.written)
  · rcases n.tree_eq with ⟨i, hi⟩ | ⟨x, hx⟩ | hu
    · rw [hi] at h ⊢
      exact .word (.int h)
    · rw [hx] at h ⊢
      exact .word (.float h)
    · rw [hu]
      exact .unreadable (.word n.written)

/-- A string of whole characters denotes their text. -/
theorem textTree_eq {atoms : List Atom} (h : ∀ a ∈ atoms, a.Shared) :
    textTree atoms = .str (plainText atoms) := by
  refine textTree_of_chars ?_
  induction atoms with
  | nil => exact .nil
  | cons a atoms ih =>
      obtain ⟨ha, hatoms⟩ := List.forall_mem_cons.1 h
      obtain ⟨c, hc⟩ : ∃ c, a.char? = some c := by
        cases a with
        | plain c hc => exact ⟨c, rfl⟩
        | short e => exact ⟨e.char, rfl⟩
        | unit a b c d => exact ⟨_, if_neg ha⟩
      rw [List.filterMap_cons_some hc]
      exact .cons hc (ih hatoms)

/-- A text nests nothing. -/
theorem height_textTree (atoms : List Atom) : (textTree atoms).height = 0 := by
  unfold textTree Text.Piece.toTree
  split
  · rfl
  · split <;> rfl

/-- A number nests nothing. -/
theorem Numeral.height_tree (n : Numeral) : n.tree.height = 0 := by
  rcases n.tree_eq with ⟨i, hi⟩ | ⟨x, hx⟩ | hu
  · rw [hi]
    rfl
  · rw [hx]
    rfl
  · rw [hu]
    rfl

namespace Form

-- =============================================================== values

mutual

/-- What a value denotes holds the same as its node. What is too deep for JSON is
unreadable, and any node will do. -/
theorem twin_treeAt (f : Form) (hf : f.Shared) (depth : Nat) : (f.treeAt depth).Twin f.node := by
  have hdeep {t : Tree} {n : Yaml.Node} (hn : Tree.Written n) (h : t.Twin n) :
      (atDepth depth t).Twin n := by
    rw [atDepth]
    split
    · exact .unreadable hn
    · exact h
  match f with
  | .null => exact .word .null
  | .bool b => exact .word (.bool b)
  | .number n => exact Numeral.twin hf
  | .string atoms =>
      rw [treeAt, textTree_eq hf]
      exact .string _
  | .noItems gap => exact hdeep (.seq _) (.seq .nil)
  | .items ⟨_, f, _⟩ rest =>
      exact hdeep (.seq _) (.seq (.cons (twin_treeAt f hf.1 (depth + 1))
        (twin_itemTrees rest hf.2 (depth + 1))))
  | .noMembers gap => exact hdeep (.map _) (.map .nil)
  | .members (k, ⟨_, f, _⟩) rest =>
      have hmember := Tree.Bound.intro (plainText k.body) (twin_treeAt f hf.2.1 (depth + 1))
      rw [← textTree_eq hf.1.atoms] at hmember
      exact hdeep (.map _) (.map (.cons hmember (twin_memberTrees rest hf.2.2 (depth + 1))))

theorem twin_itemTrees (rest : List (Slot Form)) (h : ItemsShared rest) (depth : Nat) :
    List.Forall₂ Tree.Twin (itemTrees depth rest) (itemNodes rest) := by
  match rest with
  | [] => exact .nil
  | ⟨_, f, _⟩ :: rest => exact .cons (twin_treeAt f h.1 depth) (twin_itemTrees rest h.2 depth)

/-- The members of an object have twins in the other syntax, under the same keys. -/
theorem twin_memberTrees (rest : List (Key × Slot Form)) (h : MembersShared rest) (depth : Nat) :
    List.Forall₂ (Tree.Bound Tree.Twin) (memberTrees depth rest) (memberNodes rest) := by
  match rest with
  | [] => exact .nil
  | (k, ⟨_, f, _⟩) :: rest =>
      have hmember := Tree.Bound.intro (plainText k.body) (twin_treeAt f h.2.1 depth)
      rw [← textTree_eq h.1.atoms] at hmember
      exact .cons hmember (twin_memberTrees rest h.2.2 depth)

end

mutual

/-- Nothing that can be read is too deep. -/
theorem height_treeAt (f : Form) (depth : Nat) :
    (f.treeAt depth).height ≤ Text.maxDepth - depth := by
  -- at the greatest depth a container is replaced by what cannot be read
  have hdeep {t : Tree} (h : depth < Text.maxDepth → t.height ≤ Text.maxDepth - depth) :
      (atDepth depth t).height ≤ Text.maxDepth - depth := by
    rw [atDepth]
    split
    · exact Nat.zero_le _
    · rename_i hless
      exact h (Nat.not_le.1 hless)
  have hzero {t : Tree} (h : t.height = 0) : t.height ≤ Text.maxDepth - depth :=
    h ▸ Nat.zero_le _
  match f with
  | .null => exact hzero rfl
  | .bool b => exact hzero rfl
  | .number n => exact hzero n.height_tree
  | .string atoms => exact hzero (height_textTree atoms)
  | .noItems gap => exact hdeep fun hless => Nat.succ_le_of_lt (Nat.sub_pos_of_lt hless)
  | .items ⟨_, f, _⟩ rest =>
      have hfirst := height_treeAt f (depth + 1)
      have hrest := height_itemTrees rest (depth + 1)
      exact hdeep fun hless => by
        rw [Tree.height, Tree.heightOfItems]
        omega
  | .noMembers gap => exact hdeep fun hless => Nat.succ_le_of_lt (Nat.sub_pos_of_lt hless)
  | .members (k, ⟨_, f, _⟩) rest =>
      have hfirst := height_treeAt f (depth + 1)
      have hrest := height_memberTrees rest (depth + 1)
      have hkey := height_textTree k.body
      exact hdeep fun hless => by
        rw [Tree.height, Tree.heightOfBindings]
        omega

/-- No item of a list is too deep. -/
theorem height_itemTrees (rest : List (Slot Form)) (depth : Nat) :
    Tree.heightOfItems (itemTrees depth rest) ≤ Text.maxDepth - depth := by
  match rest with
  | [] => exact Nat.zero_le _
  | ⟨_, f, _⟩ :: rest =>
      exact Nat.max_le.2 ⟨height_treeAt f depth, height_itemTrees rest depth⟩

/-- No member of an object is too deep. -/
theorem height_memberTrees (rest : List (Key × Slot Form)) (depth : Nat) :
    Tree.heightOfBindings (memberTrees depth rest) ≤ Text.maxDepth - depth := by
  match rest with
  | [] => exact Nat.zero_le _
  | (k, ⟨_, f, _⟩) :: rest =>
      have hkey : (textTree k.body).height ≤ Text.maxDepth - depth :=
        height_textTree k.body ▸ Nat.zero_le _
      exact Nat.max_le.2 ⟨Nat.max_le.2 ⟨hkey, height_treeAt f depth⟩,
        height_memberTrees rest depth⟩

end

end Form

end Json

namespace Document

-- ============================================================ documents

theorem mapError_eq_ok {ε ε' α : Type} {r : Except ε α} {wrap : ε → ε'} {a : α} :
    r.mapError wrap = .ok a ↔ r = .ok a := by
  cases r with
  | ok b => exact ⟨fun h => by cases h; rfl, fun h => by cases h; rfl⟩
  | error e => exact iff_of_false (fun h => nomatch h) (fun h => nomatch h)

/-- A document is loaded from an item when it is read from it. -/
theorem ofItem_eq_ok {item : Item} {d : Document} :
    ofItem item = .ok d ↔ ∃ n, (read item).run 0 = .ok (d, n) := by
  unfold ofItem
  split
  · rename_i d' n hread
    rw [hread]
    exact ⟨fun h => ⟨n, by cases h; rfl⟩, fun ⟨_, h⟩ => by cases h; rfl⟩
  · rename_i e hread
    rw [hread]
    exact iff_of_false (fun h => nomatch h) fun ⟨_, h⟩ => nomatch h

/-- A leaf is no document. -/
theorem ofItem_leaf {t : Tree} {d : Document} (ht : t.height = 0) :
    ofItem (.tree false t) ≠ .ok d := by
  intro h
  obtain ⟨n, hrun⟩ := ofItem_eq_ok.1 h
  have hmap (bs : List (Tree × Tree)) : t ≠ .map bs := by
    rintro rfl
    exact Nat.succ_ne_zero _ ht
  have hseq (ts : List Tree) : t ≠ .seq ts := by
    rintro rfl
    exact Nat.succ_ne_zero _ ht
  have hread : Yields (read (.tree false t)) fun _ => False :=
    (Item.yields_fields_leaf _ hmap hseq).bind fun _ h => h.elim
  exact hread _ _ _ hrun

/-- Only an object or a list is a document. -/
theorem isContainer_of_ofItem {f : Form} {d : Document}
    (h : ofItem (.tree false (f.treeAt 0)) = .ok d) : f.IsContainer := by
  cases f with
  | null => exact absurd h (ofItem_leaf rfl)
  | bool b => exact absurd h (ofItem_leaf rfl)
  | number n => exact absurd h (ofItem_leaf n.height_tree)
  | string atoms => exact absurd h (ofItem_leaf (Json.height_textTree atoms))
  | noItems gap => trivial
  | items first rest => trivial
  | noMembers gap => trivial
  | members first rest => trivial

/-- What both syntaxes read alike loads as YAML if it loads as JSON, and gives the same
document. -/
theorem load_yaml_of_load_json {f : Form} {before after : Json.Gap} {d : Document}
    (hf : f.Shared) (hbefore : .tab ∉ before) (hafter : .tab ∉ after)
    (hname : (f.treeAt 0).byName .document = true)
    (hload : load .json (encode (before.chars ++ (f.text ++ after.chars))) = .ok d) :
    load .yaml (encode (before.chars ++ (f.text ++ after.chars))) = .ok d := by
  have hitem : ofItem (.tree false (f.treeAt 0)) = .ok d := by
    rw [load, Json.Text.read?_text] at hload
    exact mapError_eq_ok.1 hload
  have hcontainer := isContainer_of_ofItem hitem
  obtain ⟨n, hrun⟩ := ofItem_eq_ok.1 hitem
  have hheight : (f.treeAt 0).height ≤ Place.maxDepth :=
    (f.height_treeAt 0).trans (by decide)
  have htwin : Item.Twin .document (.tree false (f.treeAt 0))
      (itemOfStream ⟨some f.node, []⟩) :=
    .node (f.twin_treeAt hf 0) hheight hname
  obtain ⟨d', hrun', rfl⟩ := mirrors_read htwin _ _ _ hrun
  rw [load, Yaml.read?_text hf hcontainer hbefore hafter]
  exact mapError_eq_ok.2 (ofItem_eq_ok.2 ⟨n, hrun'⟩)

/-- What is found in an outcome shows what the outcome is. -/
theorem exists_of_toOption {ε α β : Type} {r : Except ε α} {f : α → β} {b : β}
    (h : r.toOption.map f = some b) : ∃ a, r = .ok a ∧ f a = b := by
  cases r with
  | ok a => exact ⟨a, rfl, Option.some.inj h⟩
  | error e => cases h

/-- A string without escapes. -/
def letters (s : String) : List Atom :=
  s.toList.filterMap fun c => if h : Json.IsPlain c then some (.plain c h) else none

/-- A key on a line of its own. -/
def key (name : String) : Key := ⟨[.feed, .space], letters name, []⟩

/-- A document with a title and a schema that one number satisfies. -/
def titled : Form :=
  .members (key "info", ⟨[.space], .members (key "title", ⟨[], .string (letters "Pets"), []⟩) [],
      []⟩)
    [(key "components", ⟨[], .members (key "schemas", ⟨[], .members (key "One", ⟨[],
      .members (key "enum", ⟨[], .items ⟨[], .number ⟨['1'], rfl⟩, []⟩ [], []⟩) [], []⟩) [],
      []⟩) [], [.feed]⟩)]

theorem key_shared {name : String} (hatoms : ∀ a ∈ letters name, a.Shared)
    (hnear : (encode (Json.quoted (letters name) ++ [])).length ≤ 1024) : (key name).Shared :=
  ⟨hatoms, fun _ hw => absurd hw List.not_mem_nil, hnear⟩

/-- The titled document is written in the form that both syntaxes share. -/
theorem titled_shared : titled.Shared := by
  have hone : (⟨['1'], rfl⟩ : Numeral).Shared := Numeral.shared_of_int (i := 1) (by rfl)
  have htitle : ∀ a ∈ letters "Pets", a.Shared := by decide +kernel
  refine ⟨key_shared ?_ ?_, ⟨key_shared ?_ ?_, htitle, trivial⟩, key_shared ?_ ?_,
    ⟨key_shared ?_ ?_, ⟨key_shared ?_ ?_, ⟨key_shared ?_ ?_, ⟨hone, trivial⟩, trivial⟩,
      trivial⟩, trivial⟩, trivial⟩
  all_goals decide +kernel

/-- The document loads in both syntaxes. -/
theorem load_yaml_titled :
    ∃ d, load .json (encode titled.text) = .ok d ∧ load .yaml (encode titled.text) = .ok d
      ∧ d.info.title = "Pets" := by
  have htext : encode (Json.Gap.chars [] ++ (titled.text ++ Json.Gap.chars []))
      = encode titled.text := by
    rw [Json.Gap.chars, List.map_nil, List.nil_append, List.append_nil]
  have hname : (titled.treeAt 0).byName .document = true := by decide +kernel
  obtain ⟨d, hload, htitle⟩ := exists_of_toOption
    (r := load .json (encode titled.text)) (f := (·.info.title)) (b := "Pets") (by decide +kernel)
  rw [← htext] at hload ⊢
  exact ⟨d, hload, load_yaml_of_load_json titled_shared List.not_mem_nil List.not_mem_nil hname
    hload, htitle⟩

-- =========================================================== JSON only

/-- A document whose title is one character, by the numbers of its halves. -/
def pairedEscape : List UInt8 :=
  encode ("\x7b\"openapi\":\"3.1.0\",\"info\":\x7b\"title\":\"\\ud83d\\ude00\","
    ++ "\"version\":\"1\"\x7d\x7d").toList

/-- It loads as JSON only. -/
theorem load_pairedEscape :
    ∃ d, load .json pairedEscape = .ok d ∧ d.info.title = "😀"
      ∧ load .yaml pairedEscape = .error (.yaml illFormed) := by
  have hread : Yaml.read? pairedEscape = none := by decide +kernel
  obtain ⟨d, hload, htitle⟩ := exists_of_toOption
    (r := load .json pairedEscape) (f := (·.info.title)) (b := "😀") (by decide +kernel)
  exact ⟨d, hload, htitle, by rw [load, hread]⟩

end Document

end ApiForge
