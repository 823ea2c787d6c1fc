import ApiForge.Proofs.Reference.Trail
/-!
Pointers and the addresses that they name.

# Marks

A segment is unescaped in two passes over the whole of it, first for slashes and
then for tildes. No pass makes a mark that the other would take: a slash that has
been restored is in none, and a tilde is restored last. So the two passes are one
reading from the front (`unescape_eq_readSegment`), which never looks back at
what it has restored. Writing marks is undone by it (`readSegment_escape`).

# Addresses

Each entry with a name has a pointer, its address written out, and a pointer is
read as the entry that it names (`pointer_grammar`). The last segment of such a
pointer, which is cut off without reading the others, is the name under which the
entry is looked up.
-/

namespace ApiForge.Pointer

-- ================================================ statement vocabulary

/-- The text of a segment, read from its front: `~1` is a slash and `~0` a tilde,
and any other character is itself. -/
def readSegment : List Char → List Char
  | '~' :: '1' :: rest => '/' :: readSegment rest
  | '~' :: '0' :: rest => '~' :: readSegment rest
  | c :: rest => c :: readSegment rest
  | [] => []

-- =============================================================== marks

/-- A sign that is no tilde stays, and the rest is searched. -/
theorem replaceMark_cons {digit written c : Char} (h : c ≠ '~')
    (rest : List Char) :
    replaceMark digit written (c :: rest)
      = c :: replaceMark digit written rest := by
  conv => lhs; unfold replaceMark
  split
  · rename_i heq
    exact absurd (List.cons.inj heq).1 h
  · rename_i heq
    obtain ⟨rfl, rfl⟩ := List.cons.inj heq
    rfl
  · rename_i heq
    cases heq

theorem replaceMark_mark (digit written : Char) (rest : List Char) :
    replaceMark digit written ('~' :: digit :: rest)
      = written :: replaceMark digit written rest := by
  rw [replaceMark, if_pos (beq_self_eq_true digit)]

/-- A tilde stays where no mark begins. -/
theorem replaceMark_tilde {digit written : Char} {rest : List Char}
    (h : rest.head? ≠ some digit) :
    replaceMark digit written ('~' :: rest)
      = '~' :: replaceMark digit written rest := by
  cases rest with
  | nil => rfl
  | cons c rest =>
      have hne : (c == digit) = false := by simpa using h
      rw [replaceMark, hne, if_neg Bool.false_ne_true]

/-- A pass puts no other digit in front. -/
theorem head?_replaceMark {digit written other : Char} {cs : List Char}
    (hwritten : written ≠ other) (htilde : '~' ≠ other)
    (h : cs.head? ≠ some other) :
    (replaceMark digit written cs).head? ≠ some other := by
  fun_cases replaceMark digit written cs with
  | case1 => simpa using hwritten
  | case2 => simpa using htilde
  | case3 c rest => simpa using h
  | case4 => simp

/-- A sign that is no tilde is read as itself. -/
theorem readSegment_cons {c : Char} (h : c ≠ '~') (rest : List Char) :
    readSegment (c :: rest) = c :: readSegment rest := by
  conv => lhs; unfold readSegment
  split
  · rename_i heq
    exact absurd (List.cons.inj heq).1 h
  · rename_i heq
    exact absurd (List.cons.inj heq).1 h
  · rename_i heq
    obtain ⟨rfl, rfl⟩ := List.cons.inj heq
    rfl
  · rename_i heq
    cases heq

/-- The two passes are one reading from the front. -/
theorem unescape_eq_readSegment (segment : List Char) :
    unescape segment = readSegment segment := by
  unfold unescape
  fun_induction readSegment segment with
  | case1 rest ih =>
      rw [replaceMark_mark, replaceMark_cons (by decide), ih]
  | case2 rest ih =>
      have hdigit : ('0' :: rest).head? ≠ some '1' := by simp
      have hplain : '0' ≠ '~' := by decide
      rw [replaceMark_tilde hdigit, replaceMark_cons hplain, replaceMark_mark,
        ih]
  | case3 c rest hslash htilde ih =>
      -- a tilde that begins no mark stays in both passes
      by_cases hc : c = '~'
      · subst hc
        have hone : rest.head? ≠ some '1' := by
          intro h
          obtain ⟨more, rfl⟩ := List.head?_eq_some_iff.1 h
          exact hslash more rfl rfl
        have hzero : rest.head? ≠ some '0' := by
          intro h
          obtain ⟨more, rfl⟩ := List.head?_eq_some_iff.1 h
          exact htilde more rfl rfl
        rw [replaceMark_tilde hone, replaceMark_tilde
          (head?_replaceMark (by decide) (by decide) hzero), ih]
      · rw [replaceMark_cons hc, replaceMark_cons hc, ih]
  | case4 => rfl

theorem escape_tilde (rest : List Char) :
    escape ('~' :: rest) = '~' :: '0' :: escape rest := rfl

theorem escape_slash (rest : List Char) :
    escape ('/' :: rest) = '~' :: '1' :: escape rest := rfl

/-- Only tildes and slashes are written as marks. -/
theorem escape_cons {c : Char} (htilde : c ≠ '~') (hslash : c ≠ '/')
    (rest : List Char) : escape (c :: rest) = c :: escape rest := by
  unfold escape
  simp [htilde, hslash]

/-- Marks that are written are read back. -/
theorem readSegment_escape (name : List Char) :
    readSegment (escape name) = name := by
  induction name with
  | nil => rfl
  | cons c rest ih =>
      by_cases htilde : c = '~'
      · subst htilde
        rw [escape_tilde, readSegment, ih]
      by_cases hslash : c = '/'
      · subst hslash
        rw [escape_slash, readSegment, ih]
      · rw [escape_cons htilde hslash, readSegment_cons htilde, ih]

/-- No slash is left in what is escaped. -/
theorem slash_not_mem_escape (name : List Char) : '/' ∉ escape name := by
  induction name with
  | nil => exact List.not_mem_nil
  | cons c rest ih =>
      by_cases htilde : c = '~'
      · subst htilde
        rw [escape_tilde]
        simp [ih]
      by_cases hslash : c = '/'
      · subst hslash
        rw [escape_slash]
        simp [ih]
      · rw [escape_cons htilde hslash]
        simp [ih, Ne.symm hslash]

-- ============================================================ addresses

/-- The address of an entry, written out, names the entry unless its name is
empty. -/
theorem names_ofAddress_iff {a : Address} :
    Names (ofAddress a) a ↔ a.name ≠ "" := by
  constructor
  · rintro ⟨segment, hne, -, -, hname⟩ hempty
    rw [hname, String.ofList_eq_empty_iff] at hempty
    exact hne (unescape_eq_nil hempty)
  · intro hne
    have hname : unescape (escape a.name.toList) = a.name.toList := by
      rw [unescape_eq_readSegment, readSegment_escape]
    refine ⟨escape a.name.toList, fun hnil => hne ?_,
      slash_not_mem_escape _, rfl, ?_⟩
    · rw [hnil] at hname
      exact String.toList_eq_nil_iff.1 hname.symm
    · rw [hname, String.ofList_toList]

-- ========================================================= main result

/-- A pointer is read as an entry just when it has the form of a pointer to this
entry, the marks in its last segment being read from the front. Any other text
leaves the document, if it does not begin with the sign for it, or else has an
unsupported form. The address of an entry, written out, is read as this address
just when the name is not empty, and so it leads to whatever stands there, in all
documents. And whatever is read as a pointer to an entry is looked up under its
last segment. -/
theorem pointer_grammar :
    (∀ pointer a, parse pointer = .ok a ↔ Names pointer a)
      ∧ (∀ segment, unescape segment = readSegment segment)
      ∧ (∀ pointer e, parse pointer = .error e
          ↔ (¬ Inward pointer ∧ e = .external pointer)
            ∨ (Inward pointer ∧ (∀ a, ¬ Names pointer a)
                ∧ e = .unsupported pointer))
      ∧ (∀ a, parse (ofAddress a) = .ok a ↔ a.name ≠ "")
      ∧ (∀ (d : Document) a slot, d.lookUp (ofAddress a) = .ok (a, slot)
          ↔ a.name ≠ "" ∧ d.shared.slot? a = some slot)
      ∧ ∀ pointer a, parse pointer = .ok a →
          lastName pointer = a.name
            ∧ ∀ d : Document, d.lookUp pointer
              = match d.shared.slot? ⟨a.kind, lastName pointer⟩ with
                | some slot => .ok (⟨a.kind, lastName pointer⟩, slot)
                | none => .error (.missing pointer) := by
  refine ⟨fun pointer a => parse_eq_ok_iff, unescape_eq_readSegment,
    fun pointer e => parse_eq_error_iff,
    fun a => parse_eq_ok_iff.trans names_ofAddress_iff,
    fun d a slot => ?_, fun pointer a hparse => ?_⟩
  · rw [Document.lookUp_eq_ok_iff]
    exact and_congr_left' names_ofAddress_iff
  · have hname := Document.lastName_of_parse hparse
    refine ⟨hname, fun d => ?_⟩
    rw [hname]
    have hnames := parse_eq_ok_iff.1 hparse
    -- the entry is there or missing, under the name that was read
    cases hslot : d.shared.slot? a with
    | some slot => exact Document.lookUp_eq_ok_iff.2 ⟨hnames, hslot⟩
    | none => exact Document.lookUp_eq_error_iff.2 (.missing hnames hslot)

/-- A name that holds a mark and a slash. -/
theorem pointer_grammar_marks :
    ofAddress ⟨.schema, "~1/a"⟩ = "#/components/schemas/~01~1a"
      ∧ parse "#/components/schemas/~01~1a" = .ok ⟨.schema, "~1/a"⟩
      ∧ lastName "#/components/schemas/~01~1a" = "~1/a" := by
  have haddress : ofAddress ⟨.schema, "~1/a"⟩ = "#/components/schemas/~01~1a" := by
    decide +kernel
  obtain ⟨-, -, -, hread, -, hlast⟩ := pointer_grammar
  have hparse := (hread ⟨.schema, "~1/a"⟩).2 (by decide)
  rw [haddress] at hparse
  exact ⟨haddress, hparse, (hlast _ _ hparse).1⟩

end ApiForge.Pointer
