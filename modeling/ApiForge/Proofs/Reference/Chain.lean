import ApiForge.Reference.Check
import Mathlib.Data.List.Nodup
/-!
The chains that resolution follows.

# Chains without bounds

`Document.follow` carries the pointers that it may still pass through, and
fails when it meets one again. `Chain` is the same walk without that bound: a
derivation, hence finite, that lists the pointers behind the first one. A
pointer has at most one chain, so none occurs twice in it
(`chain_nodup`), and every one behind the first is written in some entry. The
bound therefore never stands in the way of a chain, and a pointer resolves to
a component exactly when a chain ends there (`resolve_eq_ok_iff`).

# Resolvers

A resolver answers from what it has met. Every binding that it ever makes ends
a chain (`Resolver.Sound`), so its answers are those of the plain resolution.
From this the module reads off what a passed reference check says: every
occurrence it has seen leads to a component of its kind
(`checkReferences_ok`).
-/

namespace ApiForge

namespace Document

variable {d : Document}

-- ============================================================== chains

/-- A pointer leads to a component through the pointers of a list: the
component stands where the last of them points to, and has the kind that each
of them asks for. -/
inductive Chain (d : Document) : String → List String → Found → Prop
  | here {pointer : String} {a : Address} {c : Component} :
      d.lookUp pointer = .ok (a, .component c) → Chain d pointer [] ⟨a, c⟩
  | next {pointer target : String} {a : Address} {rest : List String}
      {f : Found} :
      d.lookUp pointer = .ok (a, .pointer target) → Chain d target rest f →
      f.component.kind = a.kind → Chain d pointer (target :: rest) f

/-- A pointer leads to a component. -/
def Leads (d : Document) (pointer : String) (f : Found) : Prop :=
  ∃ chain, Chain d pointer chain f

/-- A pointer has one chain at most. -/
theorem chain_unique {pointer : String} {l₁ l₂ : List String} {f₁ f₂ : Found}
    (h₁ : Chain d pointer l₁ f₁) (h₂ : Chain d pointer l₂ f₂) :
    l₁ = l₂ ∧ f₁ = f₂ := by
  induction h₁ generalizing l₂ f₂ with
  | here hl =>
      cases h₂ with
      | here hl' => rw [hl] at hl'; cases hl'; exact ⟨rfl, rfl⟩
      | next hl' _ _ => rw [hl] at hl'; cases hl'
  | next hl _ _ ih =>
      cases h₂ with
      | here hl' => rw [hl] at hl'; cases hl'
      | next hl' hrest _ =>
          rw [hl] at hl'
          cases hl'
          obtain ⟨rfl, rfl⟩ := ih hrest
          exact ⟨rfl, rfl⟩

/-- Behind each of its pointers a chain goes on as that pointer's own. -/
theorem chain_suffix {pointer t : String} {before after : List String}
    {f : Found} (h : Chain d pointer (before ++ t :: after) f) :
    Chain d t after f := by
  induction before generalizing pointer with
  | nil => cases h with | next _ hrest _ => exact hrest
  | cons _ before ih => cases h with | next _ hrest _ => exact ih hrest

/-- No pointer occurs twice in a chain: from its second occurrence the chain
would go on as from the first, and never end. -/
theorem chain_nodup {pointer : String} {l : List String} {f : Found}
    (h : Chain d pointer l f) : (pointer :: l).Nodup := by
  induction h with
  | here => exact List.nodup_singleton _
  | @next pointer target a rest f hl hrest hk ih =>
      refine List.nodup_cons.2 ⟨fun hmem => ?_, ih⟩
      obtain ⟨before, after, hsplit⟩ := List.append_of_mem hmem
      have hwhole : Chain d pointer (target :: rest) f := .next hl hrest hk
      have hagain := chain_suffix (hsplit ▸ hwhole)
      have hlen := congrArg List.length
        ((chain_unique hwhole hagain).1.symm.trans hsplit)
      simp only [List.length_append, List.length_cons] at hlen
      omega

-- ============================================================= entries

/-- What a pointer's look-up finds stands at the address that it names. -/
theorem lookUp_eq_ok {pointer : String} {a : Address} {slot : Slot}
    (h : d.lookUp pointer = .ok (a, slot)) :
    Pointer.parse pointer = .ok a ∧ d.shared.slot? a = some slot := by
  simp only [lookUp, bind, Except.bind] at h
  cases hp : Pointer.parse pointer with
  | error e => rw [hp] at h; cases h
  | ok b =>
      rw [hp] at h
      dsimp only at h
      cases hs : d.shared.slot? b with
      | none => rw [hs] at h; cases h
      | some found =>
          rw [hs] at h
          cases h
          exact ⟨rfl, hs⟩

/-- The slot of an entry is a pointer just when the entry is. -/
theorem slotOf_eq_pointer {α : Type} {wrap : α → Component} {e : Referable α}
    {target : String} (h : Components.slotOf wrap e = .pointer target) :
    e = .pointer target := by
  cases e with
  | pointer t => cases h; rfl
  | inline _ => cases h

/-- The slot of an entry is a component just when the entry is written out. -/
theorem slotOf_eq_component {α : Type} {wrap : α → Component} {e : Referable α}
    {c : Component} (h : Components.slotOf wrap e = .component c) :
    ∃ value, e = .inline value ∧ wrap value = c := by
  cases e with
  | pointer _ => cases h
  | inline value => cases h; exact ⟨value, rfl, rfl⟩

/-- An entry of a section, with its slot. -/
theorem mem_of_slotOf {α : Type} {wrap : α → Component} {name : String}
    {t : Table (Referable α)} {slot : Slot}
    (h : (t.get? name).map (Components.slotOf wrap) = some slot) :
    ∃ e, (name, e) ∈ t ∧ Components.slotOf wrap e = slot := by
  obtain ⟨e, he, hslot⟩ := Option.map_eq_some_iff.1 h
  exact ⟨e, Table.mem_of_get? he, hslot⟩

/-- The target of an entry that is a pointer is one of the targets. -/
theorem mem_targets {c : Components} {a : Address} {target : String}
    (h : c.slot? a = some (.pointer target)) : target ∈ c.targets := by
  have listed {α : Type} {wrap : α → Component} {t : Table (Referable α)}
      (h : (t.get? a.name).map (Components.slotOf wrap)
        = some (.pointer target)) :
      target ∈ t.filterMap fun e => Components.targetOf? e.2 := by
    obtain ⟨e, hmem, hslot⟩ := mem_of_slotOf h
    refine List.mem_filterMap.2 ⟨_, hmem, ?_⟩
    rw [slotOf_eq_pointer hslot]
    rfl
  unfold Components.slot? at h
  rw [Components.targets, List.mem_append, List.mem_append]
  cases hk : a.kind with
  | schema =>
      rw [hk] at h
      obtain ⟨_, _, hslot⟩ := Option.map_eq_some_iff.1 h
      cases hslot
  | response => rw [hk] at h; exact .inl (.inl (listed h))
  | parameter => rw [hk] at h; exact .inl (.inr (listed h))
  | requestBody => rw [hk] at h; exact .inr (listed h)

/-- A component that a chain ends at stands at its address. -/
theorem chain_found {pointer : String} {l : List String} {f : Found}
    (h : Chain d pointer l f) :
    d.shared.slot? f.address = some (.component f.component) := by
  induction h with
  | here hl => exact (lookUp_eq_ok hl).2
  | next _ _ _ ih => exact ih

/-- Every pointer behind the first of a chain is the target of an entry. -/
theorem chain_targets {pointer : String} {l : List String} {f : Found}
    (h : Chain d pointer l f) : ∀ t ∈ l, t ∈ d.shared.targets := by
  induction h with
  | here => exact fun _ ht => absurd ht List.not_mem_nil
  | next hl _ _ ih =>
      intro t ht
      rcases List.mem_cons.1 ht with rfl | ht
      · exact mem_targets (lookUp_eq_ok hl).2
      · exact ih t ht

-- ========================================================== resolution

/-- What following a pointer finds ends a chain. -/
theorem follow_leads {unvisited : List String} {pointer : String} {f : Found}
    (h : d.follow unvisited pointer = .ok f) : Leads d pointer f := by
  -- the cases are those of the definition; only the second and the fourth find
  -- something
  induction unvisited, pointer using follow.induct d generalizing f with
  | case1 unvisited pointer e hl =>
      rw [follow, hl] at h
      cases h
  | case2 unvisited pointer a c hl =>
      rw [follow, hl] at h
      cases h
      exact ⟨[], .here hl⟩
  | case3 unvisited pointer a target hl hmem e hrest ih =>
      rw [follow, hl] at h
      simp only [hmem, ↓reduceDIte, hrest] at h
      cases h
  | case4 unvisited pointer a target hl hmem g hrest ih =>
      rw [follow, hl] at h
      simp only [hmem, ↓reduceDIte, hrest, demand] at h
      split at h
      · rename_i hkind
        cases h
        obtain ⟨chain, hchain⟩ := ih hrest
        exact ⟨target :: chain, .next hl hchain hkind⟩
      · cases h
  | case5 unvisited pointer a target hl hmem =>
      rw [follow, hl] at h
      simp only [hmem, ↓reduceDIte] at h
      cases h

/-- A chain is followed to its end if none of its pointers is missing among
those that may still be passed. -/
theorem follow_of_chain {pointer : String} {l unvisited : List String}
    {f : Found} (h : Chain d pointer l f) (hfree : ∀ t ∈ l, t ∈ unvisited) :
    d.follow unvisited pointer = .ok f := by
  induction h generalizing unvisited with
  | here hl => rw [follow, hl]
  | @next pointer target a rest f hl hrest hkind ih =>
      have hmem : target ∈ unvisited := hfree target (List.mem_cons_self ..)
      have hnot : target ∉ rest := (List.nodup_cons.1 (chain_nodup hrest)).1
      have hgoes : d.follow (unvisited.erase target) target = .ok f :=
        ih fun t ht => (List.mem_erase_of_ne (ne_of_mem_of_not_mem ht hnot)).2
          (hfree t (List.mem_cons_of_mem _ ht))
      rw [follow, hl]
      simp only [hmem, ↓reduceDIte, hgoes, demand, hkind, ↓reduceIte]

/-- A pointer resolves to what its chain ends at. -/
theorem resolve_eq_ok_iff {pointer : String} {f : Found} :
    d.resolve pointer = .ok f ↔ Leads d pointer f := by
  refine ⟨follow_leads, fun ⟨l, hchain⟩ => follow_of_chain hchain ?_⟩
  intro t ht
  have hne : t ≠ pointer :=
    ne_of_mem_of_not_mem ht (List.nodup_cons.1 (chain_nodup hchain)).1
  rw [unvisitedAfter, List.mem_erase_of_ne hne, List.mem_eraseDups]
  exact chain_targets hchain t ht

/-- What a pointer leads to is determined. -/
theorem Leads.unique {pointer : String} {f g : Found}
    (hf : Leads d pointer f) (hg : Leads d pointer g) : f = g := by
  obtain ⟨_, hf⟩ := hf
  obtain ⟨_, hg⟩ := hg
  exact (chain_unique hf hg).2

-- ============================================================= by kind

section Kinds

variable {pointer : String}

/-- A pointer resolves to a schema just when it leads to one. -/
theorem resolveSchema_eq_ok_iff {s : Schema} :
    d.resolveSchema pointer = .ok s
      ↔ ∃ a, Leads d pointer ⟨a, .schema s⟩ := by
  simp only [← resolve_eq_ok_iff, resolveSchema, bind, Except.bind]
  cases d.resolve pointer with
  | error e => simp
  | ok f => obtain ⟨a, c⟩ := f; cases c <;> simp [pure, Except.pure]

/-- A pointer resolves to a parameter just when it leads to one. -/
theorem resolveParameter_eq_ok_iff {p : Parameter} :
    d.resolveParameter pointer = .ok p
      ↔ ∃ a, Leads d pointer ⟨a, .parameter p⟩ := by
  simp only [← resolve_eq_ok_iff, resolveParameter, bind, Except.bind]
  cases d.resolve pointer with
  | error e => simp
  | ok f => obtain ⟨a, c⟩ := f; cases c <;> simp [pure, Except.pure]

/-- A pointer resolves to an answer just when it leads to one. -/
theorem resolveResponse_eq_ok_iff {r : Response} :
    d.resolveResponse pointer = .ok r
      ↔ ∃ a, Leads d pointer ⟨a, .response r⟩ := by
  simp only [← resolve_eq_ok_iff, resolveResponse, bind, Except.bind]
  cases d.resolve pointer with
  | error e => simp
  | ok f => obtain ⟨a, c⟩ := f; cases c <;> simp [pure, Except.pure]

/-- A pointer resolves to a request body just when it leads to one. -/
theorem resolveRequestBody_eq_ok_iff {b : RequestBody} :
    d.resolveRequestBody pointer = .ok b
      ↔ ∃ a, Leads d pointer ⟨a, .requestBody b⟩ := by
  simp only [← resolve_eq_ok_iff, resolveRequestBody, bind, Except.bind]
  cases d.resolve pointer with
  | error e => simp
  | ok f => obtain ⟨a, c⟩ := f; cases c <;> simp [pure, Except.pure]

end Kinds

/-- A component is written out under a name in the section of its kind. -/
def Holds (d : Document) (name : String) : Component → Prop
  | .schema s => (name, s) ∈ d.schemas
  | .response r => (name, .inline r) ∈ d.shared.responses
  | .parameter p => (name, .inline p) ∈ d.shared.parameters
  | .requestBody b => (name, .inline b) ∈ d.shared.requestBodies

/-- What stands at an address is written out there, in the section of its
kind. -/
theorem holds_of_slot? {a : Address} {c : Component}
    (h : d.shared.slot? a = some (.component c)) :
    d.Holds a.name c ∧ c.kind = a.kind := by
  -- the tables of responses, parameters and bodies may hold references, that of schemas
  -- may not
  have written {α : Type} {wrap : α → Component} {t : Table (Referable α)}
      (h : (t.get? a.name).map (Components.slotOf wrap)
        = some (.component c)) :
      ∃ value, (a.name, .inline value) ∈ t ∧ wrap value = c := by
    obtain ⟨e, hmem, hslot⟩ := mem_of_slotOf h
    obtain ⟨value, rfl, hvalue⟩ := slotOf_eq_component hslot
    exact ⟨value, hmem, hvalue⟩
  unfold Components.slot? at h
  cases hk : a.kind with
  | schema =>
      rw [hk] at h
      obtain ⟨s, hs, hslot⟩ := Option.map_eq_some_iff.1 h
      cases hslot
      exact ⟨Table.mem_of_get? hs, rfl⟩
  | response =>
      rw [hk] at h
      obtain ⟨_, hmem, rfl⟩ := written h
      exact ⟨hmem, rfl⟩
  | parameter =>
      rw [hk] at h
      obtain ⟨_, hmem, rfl⟩ := written h
      exact ⟨hmem, rfl⟩
  | requestBody =>
      rw [hk] at h
      obtain ⟨_, hmem, rfl⟩ := written h
      exact ⟨hmem, rfl⟩

/-- What a pointer leads to is written out in the document. -/
theorem Leads.holds {pointer : String} {f : Found} (h : Leads d pointer f) :
    d.Holds f.address.name f.component :=
  (holds_of_slot? (chain_found h.choose_spec)).1

/-- The last segment of a pointer is the name that the pointer is read as. -/
theorem lastName_of_parse {pointer : String} {a : Address}
    (h : Pointer.parse pointer = .ok a) : Pointer.lastName pointer = a.name := by
  unfold Pointer.parse at h
  split at h
  · rename_i path hpath
    have hsegments : Pointer.segments pointer.toList
        = String.ofList (Pointer.unescape ['#']) :: Pointer.segments path := by
      rw [hpath, Pointer.segments, Text.splitBy, Text.splitBy]
      cases hs : Text.splitBy (· == '/') path with
      | nil => exact absurd hs (Text.splitBy_ne_nil _ _)
      | cons piece pieces => simp [Pointer.segments, hs]
    rw [Pointer.lastName, hsegments]
    split at h
    · rename_i section_ name hlist
      rw [hlist]
      split at h
      · split at h
        · cases h
        · cases h; rfl
      · cases h
    · cases h
  · cases h
  · cases h

/-- A pointer to a schema names it: no entry of the other sections leads to a
schema, and a schema is no pointer. -/
theorem Leads.parse_schema {pointer : String} {f : Found}
    (h : Leads d pointer f) (hk : f.component.kind = .schema) :
    Pointer.parse pointer = .ok f.address := by
  obtain ⟨l, h⟩ := h
  cases h with
  | here hl => exact (lookUp_eq_ok hl).1
  | @next _ target a _ _ hl _ hkind =>
      have hslot := (lookUp_eq_ok hl).2
      rw [Components.slot?, ← hkind, hk] at hslot
      obtain ⟨_, _, hpointer⟩ := Option.map_eq_some_iff.1 hslot
      cases hpointer

end Document

-- =========================================================== resolvers

namespace Resolver

open Document

variable {d : Document} {known : Resolver}

/-- All that a resolver remembers is so. -/
def Sound (d : Document) (known : Resolver) : Prop :=
  ∀ b ∈ known, Leads d b.1 b.2

/-- A sound resolver stays sound when it remembers one more chain. -/
theorem Sound.cons (h : Sound d known) {pointer : String} {f : Found}
    (hf : Leads d pointer f) : Sound d ((pointer, f) :: known) := by
  intro b hb
  rcases List.mem_cons.1 hb with rfl | hb
  · exact hf
  · exact h b hb

/-- A sound resolver answers with what the pointer leads to. -/
theorem Sound.lookup (h : Sound d known) {pointer : String} {f : Found}
    (hf : known.lookup pointer = some f) : Leads d pointer f := by
  obtain ⟨before, after, rfl, -⟩ := List.lookup_eq_some_iff.1 hf
  exact h (pointer, f) (List.mem_append_right _ (List.mem_cons_self ..))

/-- Following a pointer keeps a resolver sound, and finds what the pointer
leads to. The induction is on the pointers that may still be passed, as in the
definition. -/
theorem Sound.follow (h : Sound d known) (unvisited : List String)
    (pointer : String) :
    Sound d (Resolver.follow d unvisited pointer known).2
      ∧ ∀ f, (Resolver.follow d unvisited pointer known).1 = .ok f →
          Leads d pointer f := by
  -- an answer enters the cache only when the chain that found it is known
  fun_induction Resolver.follow d unvisited pointer known with
  | case1 unvisited pointer f hknown =>
      refine ⟨h, fun g hg => ?_⟩
      cases hg
      exact h.lookup hknown
  | case2 unvisited pointer hnew e hl => exact ⟨h, fun g hg => by cases hg⟩
  | case3 unvisited pointer hnew a c hl =>
      have hleads : Leads d pointer ⟨a, c⟩ := ⟨[], .here hl⟩
      refine ⟨h.cons hleads, fun g hg => ?_⟩
      cases hg
      exact hleads
  | case4 unvisited pointer hnew a target hl hmem e known' hrest ih =>
      rw [hrest] at ih
      exact ⟨ih.1, fun g hg => by cases hg⟩
  | case5 unvisited pointer hnew a target hl hmem f known' hrest e hd ih =>
      rw [hrest] at ih
      exact ⟨ih.1, fun g hg => by cases hg⟩
  | case6 unvisited pointer hnew a target hl hmem f known' hrest g hd ih =>
      rw [hrest] at ih
      obtain ⟨chain, hchain⟩ := ih.2 f rfl
      rw [demand] at hd
      split at hd
      · rename_i hkind
        cases hd
        have hleads : Leads d pointer f :=
          ⟨target :: chain, .next hl hchain hkind⟩
        refine ⟨ih.1.cons hleads, fun g hg => ?_⟩
        cases hg
        exact hleads
      · cases hd
  | case7 unvisited pointer hnew a target hl hmem =>
      exact ⟨h, fun g hg => by cases hg⟩

/-- Resolving a pointer for a place keeps a resolver sound, and finds a
component of the kind that the place asks for. -/
theorem Sound.resolveAs (h : Sound d known) (expected : EntryKind)
    (pointer : String) :
    Sound d (Resolver.resolveAs d expected pointer known).2
      ∧ ∀ f, (Resolver.resolveAs d expected pointer known).1 = .ok f →
          Leads d pointer f ∧ f.component.kind = expected := by
  obtain ⟨hsound, hfound⟩ := h.follow (d.unvisitedAfter pointer) pointer
  rw [Resolver.resolveAs, Resolver.resolve]
  cases hrun : Resolver.follow d (d.unvisitedAfter pointer) pointer known with
  | mk answer known' =>
      rw [hrun] at hsound hfound
      cases answer with
      | error e => exact ⟨hsound, fun f hf => by cases hf⟩
      | ok g =>
          refine ⟨hsound, fun f hf => ?_⟩
          simp only [demand] at hf
          split at hf
          · rename_i hkind
            cases hf
            exact ⟨hfound g rfl, hkind⟩
          · cases hf

/-- When a check passes, every occurrence leads to a component of its kind. -/
theorem checkAll_ok {os : List Occurrence} {checked n : Nat}
    (h : Sound d known) (hok : (checkAll d os checked known).1 = .ok n) :
    ∀ o ∈ os, ∃ f, Leads d o.pointer f ∧ f.component.kind = o.kind := by
  induction os generalizing checked known with
  | nil => exact fun o ho => absurd ho List.not_mem_nil
  | cons o os ih =>
      obtain ⟨hsound, hfound⟩ := h.resolveAs o.kind o.pointer
      rw [checkAll] at hok
      cases hrun : Resolver.resolveAs d o.kind o.pointer known with
      | mk answer known' =>
          rw [hrun] at hok hsound hfound
          cases answer with
          | error e => cases hok
          | ok f =>
              intro o' ho'
              rcases List.mem_cons.1 ho' with rfl | ho'
              · exact ⟨f, hfound f rfl⟩
              · exact ih hsound hok o' ho'

end Resolver

namespace Document

variable {d : Document}

/-- Every reference leads to a component of the kind that its place asks
for. -/
def Checked (d : Document) : Prop :=
  ∀ o ∈ d.occurrences, ∃ f, Leads d o.pointer f ∧ f.component.kind = o.kind

/-- A passed reference check, whatever its resolver has met before, says that
every reference leads to a component of its kind. -/
theorem checkReferences_ok {known : Resolver} {n : Nat}
    (h : Resolver.Sound d known)
    (hok : (Resolver.checkReferences d known).1 = .ok n) : d.Checked :=
  Resolver.checkAll_ok h hok

end Document

end ApiForge
