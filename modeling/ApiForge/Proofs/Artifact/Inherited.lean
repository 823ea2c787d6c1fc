import ApiForge.Proofs.Artifact.Reached
import ApiForge.Proofs.Distinct
/-!
The parameters that an operation inherits and overrides.

An operation has the parameters of its path and its own, and one of its own
stands in for one of the path with the same name and place. What comes of a list
of parameters in this way is said apart from how it is computed (`Overridden`):
names and places in the order in which they first stand, each once, and under
each the parameter that comes last. One more parameter keeps it so
(`Overridden.put`), and hence merging does.

A list of entries holds parameters throughout, or there is a first entry whose
pointer leads nowhere (`holds_or_fails`). In the one case merging gives what the
parameters come to, in the other it names that entry
(`inherited_parameters`).
-/

namespace ApiForge

open Document (Held)
open Distinct (FirstOccurrences)

-- ================================================ statement vocabulary

namespace Parameter

/-- What an operation has at most one parameter for: a name and a place. -/
def slot (p : Parameter) : String × ParameterPlace := (p.name, p.place)

/-- The last parameter of its slot in a list. -/
def LastIn (ps : List Parameter) (p : Parameter) : Prop :=
  ∃ before after, ps = before ++ p :: after ∧ ∀ q ∈ after, q.slot ≠ p.slot

/-- What parameters come to of which a later one stands in for an earlier one of
its slot. -/
structure Overridden (given kept : List Parameter) : Prop where
  slots : FirstOccurrences (given.map slot) (kept.map slot)
  last : ∀ p ∈ kept, LastIn given p

end Parameter

/-- The first entry that holds nothing: its number, and why its pointer does not
resolve. -/
structure FirstFailure {α : Type} (resolve : String → Except ResolveError α)
    (entries : List (Referable α)) (i : Nat) (cause : ResolveError) : Prop where
  fails : ∃ target, entries[i]? = some (.pointer target)
    ∧ resolve target = .error cause
  before : ∀ e ∈ entries.take i, ∃ a, Held resolve e a

-- ================================================================ entries

/-- Entries hold something throughout, or one of them is the first that does
not. -/
theorem holds_or_fails {α : Type} (resolve : String → Except ResolveError α)
    (entries : List (Referable α)) :
    (∃ held, List.Forall₂ (Held resolve) entries held)
      ∨ ∃ i cause, FirstFailure resolve entries i cause := by
  induction entries with
  | nil => exact .inl ⟨[], .nil⟩
  | cons e rest ih =>
      -- an entry that holds something leaves the answer to the rest
      have hcons {a : α} (ha : Held resolve e a) :
          (∃ held, List.Forall₂ (Held resolve) (e :: rest) held)
            ∨ ∃ i cause, FirstFailure resolve (e :: rest) i cause := by
        rcases ih with ⟨held, hheld⟩ | ⟨i, cause, hfails, hbefore⟩
        · exact .inl ⟨a :: held, .cons ha hheld⟩
        · refine .inr ⟨i + 1, cause, hfails, ?_⟩
          exact List.forall_mem_cons.2 ⟨⟨a, ha⟩, hbefore⟩
      cases e with
      | inline a => exact hcons rfl
      | pointer target =>
          cases htarget : resolve target with
          | ok a => exact hcons htarget
          | error cause =>
              exact .inr ⟨0, cause, ⟨target, rfl, htarget⟩,
                fun e he => absurd he List.not_mem_nil⟩

-- ================================================================ merging

namespace Parameter

variable {d : Document} {p q : Parameter} {given kept l : List Parameter}

theorem sameSlot_iff : sameSlot p q = true ↔ p.slot = q.slot := by
  rw [sameSlot, Bool.and_eq_true, beq_iff_eq, beq_iff_eq, slot, slot,
    Prod.mk.injEq]

/-- Putting a parameter adds its slot behind the others, unless it is there. -/
theorem map_slot_put (p : Parameter) (l : List Parameter) :
    (put p l).map slot
      = if p.slot ∈ l.map slot then l.map slot else l.map slot ++ [p.slot] := by
  induction l with
  | nil => rfl
  | cons q rest ih =>
      rw [put, List.map_cons]
      by_cases hsame : p.slot = q.slot
      · rw [if_pos (sameSlot_iff.2 hsame), List.map_cons, hsame,
          if_pos (List.mem_cons_self ..)]
      · rw [if_neg (mt sameSlot_iff.1 hsame), List.map_cons, ih]
        by_cases hmem : p.slot ∈ rest.map slot
        · rw [if_pos hmem, if_pos (List.mem_cons_of_mem _ hmem)]
        · rw [if_neg hmem, if_neg (List.not_mem_cons_of_ne_of_not_mem hsame hmem),
            List.cons_append]

/-- Of parameters with different slots, those of other slots stay. -/
theorem mem_put_iff (h : (l.map slot).Nodup) :
    q ∈ put p l ↔ q = p ∨ q ∈ l ∧ q.slot ≠ p.slot := by
  induction l with
  | nil => simp [put]
  | cons r rest ih =>
      obtain ⟨hr, hrest⟩ := List.nodup_cons.1 h
      have hother (hq : q ∈ rest) : q.slot ≠ r.slot := by
        intro heq
        exact hr (heq ▸ List.mem_map_of_mem hq)
      rw [put]
      -- either the first parameter is replaced, or the rest is searched
      by_cases hsame : p.slot = r.slot
      · rw [if_pos (sameSlot_iff.2 hsame), List.mem_cons, List.mem_cons, hsame]
        constructor
        · rintro (rfl | hq)
          · exact .inl rfl
          · exact .inr ⟨.inr hq, hother hq⟩
        · rintro (rfl | ⟨rfl | hq, hne⟩)
          · exact .inl rfl
          · exact absurd rfl hne
          · exact .inr hq
      · rw [if_neg (mt sameSlot_iff.1 hsame), List.mem_cons, ih hrest,
          List.mem_cons]
        constructor
        · rintro (rfl | rfl | ⟨hq, hne⟩)
          · exact .inr ⟨.inl rfl, Ne.symm hsame⟩
          · exact .inl rfl
          · exact .inr ⟨.inr hq, hne⟩
        · rintro (rfl | ⟨rfl | hq, hne⟩)
          · exact .inr (.inl rfl)
          · exact .inl rfl
          · exact .inr (.inr ⟨hq, hne⟩)

/-- A parameter that is last in its slot stays so if one of another slot
follows. -/
theorem LastIn.snoc (h : LastIn given q) (hne : p.slot ≠ q.slot) :
    LastIn (given ++ [p]) q := by
  obtain ⟨before, after, rfl, hafter⟩ := h
  refine ⟨before, after ++ [p], ?_, fun r hr => ?_⟩
  · rw [List.append_assoc, List.cons_append]
  · rcases List.mem_append.1 hr with hr | hr
    · exact hafter r hr
    · cases List.mem_singleton.1 hr
      exact hne

/-- So it does behind others. -/
theorem LastIn.append (h : LastIn l p) (front : List Parameter) :
    LastIn (front ++ l) p := by
  obtain ⟨before, after, rfl, hafter⟩ := h
  exact ⟨front ++ before, after, (List.append_assoc ..).symm, hafter⟩

/-- A slot has one last parameter. -/
theorem LastIn.unique (hp : LastIn l p) (hq : LastIn l q)
    (hsame : p.slot = q.slot) : p = q := by
  obtain ⟨before, after, rfl, hafter⟩ := hp
  obtain ⟨before', after', heq, hafter'⟩ := hq
  -- whichever stands first, the other one is behind it or in its place
  rcases List.append_eq_append_iff.1 heq with
    ⟨between, -, hsplit⟩ | ⟨between, -, hsplit⟩
  · cases between with
    | nil => exact (List.cons.inj hsplit).1
    | cons r between =>
        rw [(List.cons.inj hsplit).2] at hafter
        exact absurd hsame.symm
          (hafter q (List.mem_append_right _ (List.mem_cons_self ..)))
  · cases between with
    | nil => exact (List.cons.inj hsplit).1.symm
    | cons r between =>
        rw [(List.cons.inj hsplit).2] at hafter'
        exact absurd hsame
          (hafter' p (List.mem_append_right _ (List.mem_cons_self ..)))

namespace Overridden

theorem nil : Overridden [] [] :=
  ⟨⟨fun _ => Iff.rfl, .nil⟩, fun _ hp => absurd hp List.not_mem_nil⟩

theorem nodup (h : Overridden given kept) : (kept.map slot).Nodup := by
  rw [h.slots.eq_eraseDups]
  exact Distinct.nodup_eraseDups _

/-- One more parameter is put to what there is. -/
theorem put (h : Overridden given kept) (p : Parameter) :
    Overridden (given ++ [p]) (put p kept) where
  slots := by
    have hmem : p.slot ∈ kept.map slot ↔ p.slot ∈ given.map slot :=
      h.slots.members p.slot
    have hput : (Parameter.put p kept).map slot
        = ((given ++ [p]).map slot).eraseDups := by
      rw [map_slot_put, List.map_append, List.map_singleton,
        Distinct.eraseDups_snoc, ← h.slots.eq_eraseDups]
      by_cases hp : p.slot ∈ given.map slot
      · rw [if_pos hp, if_pos (hmem.2 hp)]
      · rw [if_neg hp, if_neg (mt hmem.1 hp)]
    rw [hput]
    exact Distinct.firstOccurrences_eraseDups _
  last := by
    intro q hq
    rcases (mem_put_iff h.nodup).1 hq with rfl | ⟨hq, hne⟩
    · exact ⟨given, [], rfl, fun r hr => absurd hr List.not_mem_nil⟩
    · exact (h.last q hq).snoc hne.symm

/-- The last parameter of a slot is kept. -/
theorem mem_of_lastIn (h : Overridden given kept) (hp : LastIn given p) :
    p ∈ kept := by
  have hslot : p.slot ∈ kept.map slot := by
    refine (h.slots.members _).2 (List.mem_map_of_mem ?_)
    obtain ⟨before, after, rfl, -⟩ := hp
    exact List.mem_append_right _ (List.mem_cons_self ..)
  obtain ⟨q, hq, hsame⟩ := List.mem_map.1 hslot
  rw [hp.unique (h.last q hq) hsame.symm]
  exact hq

end Overridden

/-- Merging what entries hold puts one parameter after the other. -/
theorem mergeFrom_of_held {entries : List (Referable Parameter)}
    {held : List Parameter}
    (h : List.Forall₂ (Held d.resolveParameter) entries held)
    (context : String) (i : Nat) (before : Overridden given kept) :
    ∃ ps, mergeFrom d context i kept entries = .ok ps
      ∧ Overridden (given ++ held) ps := by
  induction h generalizing i given kept with
  | nil => exact ⟨kept, rfl, (List.append_nil given).symm ▸ before⟩
  | @cons e p _ held hp _ ih =>
      obtain ⟨ps, hrun, hps⟩ := ih (i + 1) (before.put p)
      rw [List.append_assoc, List.singleton_append] at hps
      refine ⟨ps, ?_, hps⟩
      cases e with
      | inline q =>
          cases hp
          exact hrun
      | pointer target =>
          have htarget : d.resolveParameter target = .ok p := hp
          rw [mergeFrom, htarget]
          exact hrun

/-- Merging stops at the first entry that holds nothing, and names it. -/
theorem mergeFrom_of_failure {entries : List (Referable Parameter)} {j : Nat}
    {cause : ResolveError}
    (h : FirstFailure d.resolveParameter entries j cause) (context : String)
    (i : Nat) (l : List Parameter) :
    mergeFrom d context i l entries
      = .error ⟨context ++ " parameter #" ++ toString (i + j), cause⟩ := by
  obtain ⟨⟨target, hj, hcause⟩, hbefore⟩ := h
  induction entries generalizing i j l with
  | nil => cases hj
  | cons e rest ih =>
      -- the failing entry stands here or further on
      cases j with
      | zero =>
          cases hj
          rw [mergeFrom, hcause]
          rfl
      | succ j =>
          obtain ⟨⟨p, hp⟩, hrest⟩ := List.forall_mem_cons.1 hbefore
          have hnext (l : List Parameter) := ih (i + 1) l hrest hj
          rw [Nat.add_right_comm] at hnext
          cases e with
          | inline q => exact hnext _
          | pointer target =>
              have htarget : d.resolveParameter target = .ok p := hp
              rw [mergeFrom, htarget]
              exact hnext _

-- ============================================================= main result

/-- Where the references among the parameters of a path and of its operation all
resolve, the operation has one parameter for each name and place: these in the
order in which they first stand, those of the path before the operation's own,
and for each the parameter that comes last. So the last of its own for a name and
place is always among them, in the place of the one that is inherited. Otherwise
the answer is the error of the first entry whose reference fails, with its
number. -/
theorem inherited_parameters (d : Document) (item : PathItem) (o : Operation)
    (context : String) :
    (∀ inherited own,
        List.Forall₂ (Held d.resolveParameter) item.parameters inherited →
        List.Forall₂ (Held d.resolveParameter) o.parameters own →
        ∃ ps, merged d item o context = .ok ps
          ∧ (ps.map slot).Nodup
          ∧ FirstOccurrences ((inherited ++ own).map slot) (ps.map slot)
          ∧ (∀ p ∈ ps, LastIn (inherited ++ own) p)
          ∧ ∀ p, LastIn own p → p ∈ ps)
      ∧ ∀ e, merged d item o context = .error e
          ↔ ∃ i cause, FirstFailure d.resolveParameter
              (item.parameters ++ o.parameters) i cause
            ∧ e = ⟨context ++ " parameter #" ++ toString i, cause⟩ := by
  constructor
  · intro inherited own hinherited hown
    obtain ⟨ps, hrun, hps⟩ := mergeFrom_of_held
      (List.rel_append hinherited hown) context 0 .nil
    rw [List.nil_append] at hps
    refine ⟨ps, hrun, hps.nodup, hps.slots, hps.last, fun p hp => ?_⟩
    exact hps.mem_of_lastIn (hp.append inherited)
  · intro e
    constructor
    · intro herror
      rcases holds_or_fails d.resolveParameter (item.parameters ++ o.parameters)
        with ⟨held, hheld⟩ | ⟨i, cause, hfails⟩
      · obtain ⟨ps, hrun, -⟩ := mergeFrom_of_held hheld context 0 .nil
        rw [merged, hrun] at herror
        cases herror
      · rw [merged, mergeFrom_of_failure hfails, Nat.zero_add] at herror
        cases herror
        exact ⟨i, cause, hfails, rfl⟩
    · rintro ⟨i, cause, hfails, rfl⟩
      rw [merged, mergeFrom_of_failure hfails, Nat.zero_add]

-- a path with a number in place of a text, and a parameter that is shared

/-- Says in many words what is asked for. -/
def verbose : Parameter where
  name := "verbose"
  place := .query

/-- Names what is asked for, in a text or a number. -/
def identity (type : String) : Parameter where
  name := "id"
  place := .path
  schema := some (.ofType type)

/-- Its one parameter is shared. -/
def catalogue : Document where
  components := some { parameters := [("verbose", .inline verbose)] }

def itemOfCatalogue : PathItem where
  parameters :=
    [.inline (identity "string"), .pointer "#/components/parameters/verbose"]

/-- Asks for an item by its number. -/
def readItem : Operation where
  parameters := [.inline (identity "integer")]

/-- The number stands in the place of the text. -/
theorem inherited_parameters_catalogue :
    List.Forall₂ (Held catalogue.resolveParameter) itemOfCatalogue.parameters
        [identity "string", verbose]
      ∧ List.Forall₂ (Held catalogue.resolveParameter) readItem.parameters
        [identity "integer"]
      ∧ ∃ ps, merged catalogue itemOfCatalogue readItem "GET /items" = .ok ps
        ∧ ps.map slot = [("id", .path), ("verbose", .query)]
        ∧ identity "integer" ∈ ps := by
  -- the reference among the parameters of the path resolves
  have hinherited : List.Forall₂ (Held catalogue.resolveParameter)
      itemOfCatalogue.parameters [identity "string", verbose] := by
    refine .cons rfl (.cons ?_ .nil)
    show catalogue.resolveParameter "#/components/parameters/verbose" = .ok verbose
    exact Document.resolveParameter_eq_ok_iff.2 ⟨_, [], .here rfl⟩
  have hown : List.Forall₂ (Held catalogue.resolveParameter)
      readItem.parameters [identity "integer"] :=
    .cons rfl .nil
  obtain ⟨ps, hrun, -, hslots, -, hlast⟩ :=
    (inherited_parameters catalogue itemOfCatalogue readItem "GET /items").1
      _ _ hinherited hown
  refine ⟨hinherited, hown, ps, hrun, ?_, hlast _ ⟨[], [], rfl, ?_⟩⟩
  · rw [hslots.eq_eraseDups]
    decide
  · exact fun q hq => absurd hq List.not_mem_nil

end Parameter

end ApiForge
