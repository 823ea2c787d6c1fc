import ApiForge.Proofs.Distinct
import ApiForge.Proofs.Reference.Chain
import ApiForge.Proofs.Reference.Pointer
import Mathlib.Data.List.Perm.Subperm
/-!
The trails of pointers, and what resolution makes of them.

# Trails

A pointer to an entry that is itself a pointer leads on. `Trail` is that walk
and nothing more: it looks at no kinds, and may pass a pointer any number of
times. A trail stops at a pointer that names a component, or no entry at all;
the trail of a pointer that ever stops passes nothing twice
(`Trail.no_return`), and the others come back to one of their pointers
(`exists_stop`), since every pointer behind the first is written in some entry.

# Outcomes

`Outcome` says in terms of trails what a pointer should resolve to, one rule
for each way in which a trail can end. `Document.follow` carries a list of the
pointers that it may still pass. For a trail that stops, the list is never in
the way, whatever has been struck from it before (`follow_eq_resolve`), so
resolution can be read off step by step (`resolve_of_pointer`); for a trail
that comes back, the list runs out at the first repetition (`follow_cycle`).
Hence the rules of `Outcome` are exactly what resolution does, with a resolver
that has met nothing before (`resolve_eq_iff_outcome`).
-/

namespace ApiForge

namespace Document

-- ================================================ statement vocabulary

/-- A pointer names an entry of the document, and this stands there. -/
def Entry (d : Document) (pointer : String) (a : Address) (slot : Slot) :
    Prop :=
  Pointer.Names pointer a ∧ d.shared.slot? a = some slot

/-- Why a pointer names no entry of the document. -/
inductive Fault (d : Document) (pointer : String) : ResolveError → Prop
  | external :
      ¬ Pointer.Inward pointer → Fault d pointer (.external pointer)
  | unsupported :
      Pointer.Inward pointer → (∀ a, ¬ Pointer.Names pointer a) →
      Fault d pointer (.unsupported pointer)
  | missing {a : Address} :
      Pointer.Names pointer a → d.shared.slot? a = none →
      Fault d pointer (.missing pointer)

/-- A pointer is one to entries of a kind, by the section that it names. -/
def AsksFor (pointer : String) (k : EntryKind) : Prop :=
  ∃ a, Pointer.Names pointer a ∧ a.kind = k

/-- The trail of the first pointer passes those of the list and gets to the
last one: each pointer that is passed names an entry that is a pointer to the
next. -/
inductive Trail (d : Document) : String → List String → String → Prop
  | here (p : String) : Trail d p [] p
  | pass {p t q : String} {a : Address} {passed : List String} :
      d.Entry p a (.pointer t) → Trail d t passed q →
      Trail d p (p :: passed) q

/-- What a pointer resolves to, by where its trail gets. -/
inductive Outcome (d : Document) (p : String) :
    Except ResolveError Found → Prop
  /-- A component, if all pointers of the trail are of its kind. -/
  | found {passed : List String} {q : String} {a : Address} {c : Component} :
      Trail d p passed q → d.Entry q a (.component c) →
      (∀ r ∈ passed ++ [q], AsksFor r c.kind) → Outcome d p (.ok ⟨a, c⟩)
  /-- A pointer that names no entry: its own error. -/
  | fault {passed : List String} {q : String} {e : ResolveError} :
      Trail d p passed q → d.Fault q e → Outcome d p (.error e)
  /-- A pointer that has been passed, for the first time in this trail. -/
  | cycle {passed : List String} {q : String} :
      Trail d p passed q → passed.Nodup → q ∈ passed →
      Outcome d p (.error (.cycle q))
  /-- A component of another kind than that of some pointer: the error is
  about the last such pointer, and names the one that its entry holds. -/
  | mismatch {before after : List String} {r t q : String} {a b : Address}
      {c : Component} :
      Trail d p (before ++ r :: after) q → d.Entry q a (.component c) →
      d.Entry r b (.pointer t) → b.kind ≠ c.kind →
      (∀ s ∈ after, AsksFor s c.kind) →
      Outcome d p (.error (.kindMismatch t b.kind))

/-- The trail of one pointer gets to the other. -/
def Reaches (d : Document) (p q : String) : Prop :=
  ∃ passed, Trail d p passed q

/-- The trail of a pointer goes no further than the pointer itself. -/
def Stops (d : Document) (p : String) : Prop :=
  ∀ a t, ¬ d.Entry p a (.pointer t)

variable {d : Document} {p q r t : String} {a b : Address}
variable {e : ResolveError} {passed : List String}

-- ============================================================= look-up

/-- Looking a pointer up finds the entry that it names. -/
theorem lookUp_eq_ok_iff {slot : Slot} :
    d.lookUp p = .ok (a, slot) ↔ d.Entry p a slot := by
  refine ⟨fun h => ?_, fun ⟨hnames, hslot⟩ => ?_⟩
  · obtain ⟨hparse, hslot⟩ := lookUp_eq_ok h
    exact ⟨Pointer.parse_eq_ok_iff.1 hparse, hslot⟩
  · simp only [lookUp, Pointer.parse_of_names hnames, bind, Except.bind, hslot]
    rfl

/-- Looking a pointer up fails with the reason why it names no entry. -/
theorem lookUp_eq_error_iff : d.lookUp p = .error e ↔ d.Fault p e := by
  constructor
  · intro h
    cases hp : Pointer.parse p with
    | error e' =>
        simp only [lookUp, hp, bind, Except.bind, Except.error.injEq] at h
        subst h
        rcases Pointer.parse_eq_error_iff.1 hp
          with ⟨hout, rfl⟩ | ⟨hin, hnone, rfl⟩
        · exact .external hout
        · exact .unsupported hin hnone
    | ok a =>
        simp only [lookUp, hp, bind, Except.bind] at h
        cases hs : d.shared.slot? a with
        | some slot => rw [hs] at h; cases h
        | none =>
            rw [hs] at h
            cases h
            exact .missing (Pointer.parse_eq_ok_iff.1 hp) hs
  · intro h
    -- what cannot be read as a pointer is never looked up
    have fails (hp : Pointer.parse p = .error e) : d.lookUp p = .error e := by
      simp only [lookUp, hp, bind, Except.bind]
    cases h with
    | external hout =>
        exact fails (Pointer.parse_eq_error_iff.2 (.inl ⟨hout, rfl⟩))
    | unsupported hin hnone =>
        exact fails (Pointer.parse_eq_error_iff.2 (.inr ⟨hin, hnone, rfl⟩))
    | missing hnames hslot =>
        simp only [lookUp, Pointer.parse_of_names hnames, bind, Except.bind,
          hslot]
        rfl

/-- A pointer names one entry at most, and one thing stands there. -/
theorem Entry.unique {slot₁ slot₂ : Slot} (h₁ : d.Entry p a slot₁)
    (h₂ : d.Entry p b slot₂) : a = b ∧ slot₁ = slot₂ := by
  have h := (lookUp_eq_ok_iff.2 h₁).symm.trans (lookUp_eq_ok_iff.2 h₂)
  exact Prod.mk.inj (Except.ok.inj h)

/-- The pointer of an entry is one of the targets. -/
theorem Entry.mem_targets (h : d.Entry p a (.pointer t)) :
    t ∈ d.shared.targets :=
  Document.mem_targets h.2

/-- A component has the kind of the pointer that names it. -/
theorem Entry.asksFor {c : Component} (h : d.Entry p a (.component c)) :
    AsksFor p c.kind :=
  ⟨a, h.1, (holds_of_slot? h.2).2.symm⟩

theorem Entry.stops {c : Component} (h : d.Entry p a (.component c)) :
    Stops d p :=
  fun _ _ h' => Slot.noConfusion (h.unique h').2

/-- A pointer that leads nowhere stops. -/
theorem Fault.stops (h : d.Fault p e) : Stops d p := by
  intro a t h'
  have hok := lookUp_eq_ok_iff.2 h'
  rw [lookUp_eq_error_iff.2 h] at hok
  cases hok

/-- A pointer at which trails stop names a component, or no entry. -/
theorem Stops.cases (h : Stops d p) :
    (∃ a c, d.Entry p a (.component c)) ∨ ∃ e, d.Fault p e := by
  cases hl : d.lookUp p with
  | error e => exact .inr ⟨e, lookUp_eq_error_iff.1 hl⟩
  | ok found =>
      obtain ⟨a, slot⟩ := found
      have hentry := lookUp_eq_ok_iff.1 hl
      cases slot with
      | component c => exact .inl ⟨a, c, hentry⟩
      | pointer t => exact absurd hentry (h a t)

-- ============================================================== trails

theorem Trail.trans {behind : List String} (h : Trail d p passed q)
    (h' : Trail d q behind r) : Trail d p (passed ++ behind) r := by
  induction h with
  | here => exact h'
  | pass he _ ih => exact .pass he (ih h')

/-- A trail goes on where the entry that it gets to is a pointer. -/
theorem Trail.next (h : Trail d p passed q) (he : d.Entry q a (.pointer t)) :
    Trail d p (passed ++ [q]) t :=
  h.trans (.pass he (.here t))

/-- A trail is put together from the trails to and behind each pointer that
it passes. -/
theorem Trail.split {before after : List String}
    (h : Trail d p (before ++ r :: after) q) :
    Trail d p before r
      ∧ ∃ a t, d.Entry r a (.pointer t) ∧ Trail d t after q := by
  induction before generalizing p with
  | nil => cases h with | pass he hrest => exact ⟨.here _, _, _, he, hrest⟩
  | cons s before ih =>
      cases h with
      | pass he hrest =>
          obtain ⟨hto, hbehind⟩ := ih hrest
          exact ⟨.pass he hto, hbehind⟩

/-- Every pointer behind the first is the target of an entry. -/
theorem Trail.mem_targets (h : Trail d p passed q) :
    ∀ s ∈ passed, s = p ∨ s ∈ d.shared.targets := by
  induction h with
  | here => exact fun _ hs => absurd hs List.not_mem_nil
  | pass he _ ih =>
      intro s hs
      rcases List.mem_cons.1 hs with rfl | hs
      · exact .inl rfl
      · rcases ih s hs with rfl | hs
        · exact .inr he.mem_targets
        · exact .inr hs

/-- Two trails of one pointer that both stop are the same. -/
theorem Trail.unique {passed' : List String} {q' : String}
    (h : Trail d p passed q) (hq : Stops d q) (h' : Trail d p passed' q')
    (hq' : Stops d q') : passed = passed' := by
  induction h generalizing passed' with
  | here =>
      cases h' with
      | here => rfl
      | pass he _ => exact absurd he (hq _ _)
  | pass he _ ih =>
      cases h' with
      | here => exact absurd he (hq' _ _)
      | pass he' hrest =>
          cases (he.unique he').2
          rw [ih hq hrest]

/-- A trail that stops does not come back to a pointer that it has passed:
going round once more it would be another trail. -/
theorem Trail.no_return {back : List String} (h : Trail d p passed q)
    (hq : Stops d q) (he : d.Entry p a (.pointer t)) :
    ¬ Trail d t back p := by
  intro hback
  have hround := congrArg List.length (h.unique hq ((hback.trans h).pass he) hq)
  rw [List.length_cons, List.length_append] at hround
  omega

theorem Reaches.refl (p : String) : Reaches d p p :=
  ⟨[], .here p⟩

theorem Reaches.trans (h : Reaches d p q) (h' : Reaches d q r) :
    Reaches d p r := by
  obtain ⟨passed, h⟩ := h
  obtain ⟨behind, h'⟩ := h'
  exact ⟨passed ++ behind, h.trans h'⟩

/-- A pointer that stops reaches itself only. -/
theorem Stops.reaches_iff (h : Stops d p) : Reaches d p q ↔ q = p := by
  constructor
  · rintro ⟨passed, htrail⟩
    cases htrail with
    | here => rfl
    | pass he _ => exact absurd he (h _ _)
  · rintro rfl
    exact .refl q

/-- An alias reaches itself and what its target reaches. -/
theorem Entry.reaches_iff (h : d.Entry p a (.pointer t)) :
    Reaches d p q ↔ q = p ∨ Reaches d t q := by
  constructor
  · rintro ⟨passed, htrail⟩
    cases htrail with
    | here => exact .inl rfl
    | pass he hrest =>
        cases (h.unique he).2
        exact .inr ⟨_, hrest⟩
  · rintro (rfl | ⟨passed, hrest⟩)
    · exact .refl q
    · exact ⟨p :: passed, .pass h hrest⟩

-- =========================================================== following

/-- All pointers that are struck from a list have been passed on the way. -/
def Ample (d : Document) (unvisited : List String) (p : String) : Prop :=
  ∀ t ∈ d.shared.targets, t ∉ unvisited → Reaches d t p

variable {unvisited : List String}

/-- All targets but the pointer itself are ample to follow it. -/
theorem ample_unvisitedAfter (p : String) : Ample d (d.unvisitedAfter p) p := by
  intro t ht hstruck
  have hp : t = p := by
    by_contra hne
    apply hstruck
    rw [unvisitedAfter, List.mem_erase_of_ne hne, List.mem_eraseDups]
    exact ht
  rw [hp]
  exact .refl p

/-- Striking the next pointer when the trail goes on keeps to this. -/
theorem Ample.erase (h : Ample d unvisited p)
    (he : d.Entry p a (.pointer t)) : Ample d (unvisited.erase t) t := by
  intro s hs hstruck
  rcases eq_or_ne s t with rfl | hne
  · exact .refl s
  · rw [List.mem_erase_of_ne hne] at hstruck
    exact (h s hs hstruck).trans (he.reaches_iff.2 (.inr (.refl t)))

/-- The next pointer of a trail that stops has not been struck. -/
theorem Ample.mem (h : Ample d unvisited p) (he : d.Entry p a (.pointer t))
    (hp : Trail d p passed q) (hq : Stops d q) : t ∈ unvisited := by
  by_contra hstruck
  obtain ⟨back, hback⟩ := h t he.mem_targets hstruck
  exact hp.no_return hq he hback

theorem follow_of_component {c : Component}
    (h : d.Entry p a (.component c)) : d.follow unvisited p = .ok ⟨a, c⟩ := by
  rw [follow, lookUp_eq_ok_iff.2 h]

theorem follow_of_fault (h : d.Fault p e) :
    d.follow unvisited p = .error e := by
  rw [follow, lookUp_eq_error_iff.2 h]

/-- Following goes on to the next pointer, and compares kinds on the way
back. -/
theorem follow_of_pointer (h : d.Entry p a (.pointer t))
    (ht : t ∈ unvisited) :
    d.follow unvisited p
      = (d.follow (unvisited.erase t) t).bind (demand a.kind t) := by
  rw [follow, lookUp_eq_ok_iff.2 h]
  simp only [ht, ↓reduceDIte]
  cases d.follow (unvisited.erase t) t with
  | error e => rfl
  | ok f => rfl

theorem follow_of_struck (h : d.Entry p a (.pointer t))
    (ht : t ∉ unvisited) : d.follow unvisited p = .error (.cycle t) := by
  rw [follow, lookUp_eq_ok_iff.2 h]
  simp only [ht, ↓reduceDIte]

/-- On a trail that stops, it does not matter what has been struck on the
way. -/
theorem follow_congr {unvisited' : List String} (hp : Trail d p passed q)
    (hq : Stops d q) (h : Ample d unvisited p) (h' : Ample d unvisited' p) :
    d.follow unvisited p = d.follow unvisited' p := by
  induction hp generalizing unvisited unvisited' with
  | here p =>
      rcases hq.cases with ⟨a, c, hc⟩ | ⟨e, he⟩
      · rw [follow_of_component hc, follow_of_component hc]
      · rw [follow_of_fault he, follow_of_fault he]
  | pass he hrest ih =>
      rw [follow_of_pointer he (h.mem he (.pass he hrest) hq),
        follow_of_pointer he (h'.mem he (.pass he hrest) hq),
        ih hq (h.erase he) (h'.erase he)]

theorem follow_eq_resolve (h : Ample d unvisited p)
    (hp : Trail d p passed q) (hq : Stops d q) :
    d.follow unvisited p = d.resolve p :=
  follow_congr hp hq h (ample_unvisitedAfter p)

/-- A pointer to a pointer resolves to what that resolves to, if the kind is
right. -/
theorem resolve_of_pointer (h : d.Entry p a (.pointer t))
    (ht : Trail d t passed q) (hq : Stops d q) :
    d.resolve p = (d.resolve t).bind (demand a.kind t) := by
  have hample := ample_unvisitedAfter (d := d) p
  rw [resolve, follow_of_pointer h (hample.mem h (.pass h ht) hq),
    follow_eq_resolve (hample.erase h) ht hq]

/-- What goes wrong behind a pointer of the trail goes wrong for the whole. -/
theorem resolve_error_of_trail {behind : List String} (h : Trail d p passed r)
    (hr : Trail d r behind q) (hq : Stops d q)
    (he : d.resolve r = .error e) : d.resolve p = .error e := by
  induction h with
  | here => exact he
  | pass hentry hrest ih =>
      rw [resolve_of_pointer hentry (hrest.trans hr) hq, ih hr he]
      rfl

/-- A trail to a component, all of whose pointers are of its kind, is
followed to its end. -/
theorem resolve_of_trail {c : Component} (h : Trail d p passed q)
    (hc : d.Entry q a (.component c)) (hkinds : ∀ r ∈ passed, AsksFor r c.kind) :
    d.resolve p = .ok ⟨a, c⟩ := by
  induction h with
  | here => exact follow_of_component hc
  | @pass p t q b passed hentry hrest ih =>
      obtain ⟨b', hnames, hkind⟩ := hkinds p (List.mem_cons_self ..)
      cases hnames.unique hentry.1
      rw [resolve_of_pointer hentry hrest hc.stops,
        ih hc fun r hr => hkinds r (List.mem_cons_of_mem _ hr)]
      simp only [Except.bind, demand, hkind, ↓reduceIte]

/-- A trail that comes back to one of its pointers ends there: all pointers
before are still free when they are met, and this one is not. -/
theorem follow_cycle (h : Trail d p (p :: passed) q)
    (hfree : ∀ s ∈ passed, s ∈ unvisited) (hnodup : passed.Nodup)
    (hlist : unvisited.Nodup) (hq : q ∈ passed ∨ q ∉ unvisited) :
    d.follow unvisited p = .error (.cycle q) := by
  induction passed generalizing p unvisited with
  | nil =>
      -- the target is struck off the list, and the trail behind it is shorter
      cases h with
      | pass he hrest =>
          cases hrest with
          | here => exact follow_of_struck he (hq.resolve_left List.not_mem_nil)
  | cons s passed ih =>
      obtain ⟨hs, hpassed⟩ := List.nodup_cons.1 hnodup
      cases h with
      | @pass _ t _ a _ he hrest =>
          have hst : s = t := by cases hrest with | pass => rfl
          subst hst
          have hfree' : ∀ x ∈ passed, x ∈ unvisited.erase s := fun x hx =>
            (List.mem_erase_of_ne (ne_of_mem_of_not_mem hx hs)).2
              (hfree x (List.mem_cons_of_mem _ hx))
          have hq' : q ∈ passed ∨ q ∉ unvisited.erase s := by
            rcases hq with hq | hq
            · rcases List.mem_cons.1 hq with rfl | hq
              · exact .inr (hlist.not_mem_erase)
              · exact .inl hq
            · exact .inr fun hmem => hq (List.mem_of_mem_erase hmem)
          rw [follow_of_pointer he (hfree s (List.mem_cons_self ..)),
            ih hrest hfree' hpassed (hlist.erase s) hq']
          rfl

/-- A trail that comes back fails as a cycle, at the pointer to which it does. -/
theorem resolve_cycle (h : Trail d p passed q) (hnodup : passed.Nodup)
    (hq : q ∈ passed) : d.resolve p = .error (.cycle q) := by
  cases h with
  | here => exact absurd hq List.not_mem_nil
  | @pass _ t _ a passed he hrest =>
      have htrail : Trail d p (p :: passed) q := .pass he hrest
      obtain ⟨hp, hpassed⟩ := List.nodup_cons.1 hnodup
      have hlist := Distinct.nodup_eraseDups d.shared.targets
      refine follow_cycle htrail (fun s hs => ?_) hpassed (hlist.erase p) ?_
      · have hne : s ≠ p := ne_of_mem_of_not_mem hs hp
        have hmem := htrail.mem_targets s (List.mem_cons_of_mem _ hs)
        rw [unvisitedAfter, List.mem_erase_of_ne hne, List.mem_eraseDups]
        exact hmem.resolve_left hne
      · rcases List.mem_cons.1 hq with rfl | hq
        · exact .inr hlist.not_mem_erase
        · exact .inl hq

-- ============================================================ outcomes

/-- A trail goes on until it stops or comes back to what it has passed: there
are only so many targets to pass. -/
theorem exists_stop (d : Document) (p : String) :
    ∃ passed q, Trail d p passed q ∧ passed.Nodup
      ∧ (q ∈ passed ∨ Stops d q) := by
  by_contra hnone
  -- otherwise there would be trails of any length without repetition
  have long (n : Nat) :
      ∃ passed q, Trail d p passed q ∧ passed.Nodup ∧ passed.length = n := by
    induction n with
    | zero => exact ⟨[], p, .here p, List.nodup_nil, rfl⟩
    | succ n ih =>
        obtain ⟨passed, q, htrail, hnodup, hlength⟩ := ih
        have hfresh : q ∉ passed := fun hq =>
          hnone ⟨passed, q, htrail, hnodup, .inl hq⟩
        have hgoes : ∃ a t, d.Entry q a (.pointer t) := by
          by_contra hstop
          refine hnone ⟨passed, q, htrail, hnodup, .inr fun a t he => ?_⟩
          exact hstop ⟨a, t, he⟩
        obtain ⟨a, t, he⟩ := hgoes
        refine ⟨passed ++ [q], t, htrail.next he, ?_, ?_⟩
        · exact List.nodup_append_comm.1 (List.nodup_cons.2 ⟨hfresh, hnodup⟩)
        · rw [List.length_append, hlength, List.length_singleton]
  obtain ⟨passed, q, htrail, hnodup, hlength⟩ :=
    long (d.shared.targets.length + 2)
  have hsub : passed ⊆ p :: d.shared.targets := fun s hs =>
    List.mem_cons.2 (htrail.mem_targets s hs)
  have hle := (List.subperm_of_subset hnodup hsub).length_le
  rw [List.length_cons] at hle
  omega

/-- Either all members of a list have a property, or one is the last that has
it not. -/
theorem all_or_last_without {α : Type} (P : α → Prop) (l : List α) :
    (∀ x ∈ l, P x)
      ∨ ∃ before x after, l = before ++ x :: after ∧ ¬ P x
          ∧ ∀ y ∈ after, P y := by
  induction l with
  | nil => exact .inl fun x hx => absurd hx List.not_mem_nil
  | cons a l ih =>
      rcases ih with hall | ⟨before, x, after, rfl, hx, hafter⟩
      · by_cases ha : P a
        · exact .inl (List.forall_mem_cons.2 ⟨ha, hall⟩)
        · exact .inr ⟨[], a, l, rfl, ha, hall⟩
      · exact .inr ⟨a :: before, x, after, rfl, hx, hafter⟩

/-- Every pointer has an outcome. -/
theorem exists_outcome (d : Document) (p : String) :
    ∃ answer, Outcome d p answer := by
  obtain ⟨passed, q, htrail, hnodup, hend⟩ := exists_stop d p
  rcases hend with hq | hq
  · exact ⟨_, .cycle htrail hnodup hq⟩
  rcases hq.cases with ⟨a, c, hc⟩ | ⟨e, he⟩
  · rcases all_or_last_without (AsksFor · c.kind) passed
      with hall | ⟨before, r, after, rfl, hr, hafter⟩
    · refine ⟨_, .found htrail hc fun r hr => ?_⟩
      rcases List.mem_append.1 hr with hr | hr
      · exact hall r hr
      · cases List.mem_singleton.1 hr
        exact hc.asksFor
    · obtain ⟨-, b, t, he, -⟩ := htrail.split
      exact ⟨_, .mismatch htrail hc he (fun hk => hr ⟨b, he.1, hk⟩) hafter⟩
  · exact ⟨_, .fault htrail he⟩

/-- A pointer resolves to its outcome. -/
theorem Outcome.resolve_eq {answer : Except ResolveError Found}
    (h : Outcome d p answer) : d.resolve p = answer := by
  cases h with
  | found htrail hc hkinds =>
      exact resolve_of_trail htrail hc fun r hr =>
        hkinds r (List.mem_append_left _ hr)
  | fault htrail he =>
      exact resolve_error_of_trail htrail (.here _) he.stops (follow_of_fault he)
  | cycle htrail hnodup hq => exact resolve_cycle htrail hnodup hq
  | @mismatch before after r t q a b c htrail hc he hkind hafter =>
      obtain ⟨hbefore, b', t', he', hbehind⟩ := htrail.split
      cases (he.unique he').2
      refine resolve_error_of_trail hbefore (.pass he hbehind) hc.stops ?_
      rw [resolve_of_pointer he hbehind hc.stops,
        resolve_of_trail hbehind hc hafter]
      simp only [Except.bind, demand, hkind.symm, ↓reduceIte]

/-- What leads to a component has a trail that stops there. -/
theorem Leads.trail {f : Found} (h : Leads d p f) :
    ∃ passed q, Trail d p passed q
      ∧ d.Entry q f.address (.component f.component) := by
  obtain ⟨chain, h⟩ := h
  induction h with
  | here hl => exact ⟨[], _, .here _, lookUp_eq_ok_iff.1 hl⟩
  | next hl _ _ ih =>
      obtain ⟨passed, q, htrail, hend⟩ := ih
      exact ⟨_, q, .pass (lookUp_eq_ok_iff.1 hl) htrail, hend⟩

/-- Such a pointer is followed to the component, whatever has been struck on
the way. -/
theorem Leads.follow_eq {f : Found} (h : Leads d p f)
    (hample : Ample d unvisited p) : d.follow unvisited p = .ok f := by
  obtain ⟨passed, q, htrail, hend⟩ := h.trail
  rw [follow_eq_resolve hample htrail hend.stops]
  exact resolve_eq_ok_iff.2 h

/-- So a pointer that is followed to an error leads nowhere. -/
theorem not_leads_of_follow {f : Found} (hample : Ample d unvisited p)
    (h : d.follow unvisited p = .error e) : ¬ Leads d p f := by
  intro hleads
  rw [hleads.follow_eq hample] at h
  cases h

theorem Fault.not_leads {f : Found} (h : d.Fault p e) : ¬ Leads d p f :=
  not_leads_of_follow (ample_unvisitedAfter p) (follow_of_fault h)

end Document

-- =========================================================== resolvers

namespace Resolver

open Document

variable {d : Document} {p : String} {known : Resolver}

theorem sound_nil (d : Document) : Sound d [] :=
  fun _ hb => absurd hb List.not_mem_nil

/-- What a resolver has met before does not show in its answers: a binding
that it knows is what following the pointer would find. -/
theorem Sound.follow_fst (h : Sound d known) {unvisited : List String}
    (hample : Ample d unvisited p) :
    (Resolver.follow d unvisited p known).1 = d.follow unvisited p := by
  -- case by case both follow the same entries, and a remembered one is right
  fun_induction Resolver.follow d unvisited p known with
  | case1 unvisited p f hknown => exact ((h.lookup hknown).follow_eq hample).symm
  | case2 unvisited p hnew e hl => rw [Document.follow, hl]
  | case3 unvisited p hnew a c hl => rw [Document.follow, hl]
  | case4 unvisited p hnew a t hl hmem e known' hrest ih =>
      have hentry := lookUp_eq_ok_iff.1 hl
      rw [hrest] at ih
      rw [follow_of_pointer hentry hmem, ← ih (hample.erase hentry)]
      rfl
  | case5 unvisited p hnew a t hl hmem f known' hrest e hd ih =>
      have hentry := lookUp_eq_ok_iff.1 hl
      rw [hrest] at ih
      rw [follow_of_pointer hentry hmem, ← ih (hample.erase hentry)]
      exact hd.symm
  | case6 unvisited p hnew a t hl hmem f known' hrest g hd ih =>
      have hentry := lookUp_eq_ok_iff.1 hl
      rw [hrest] at ih
      rw [follow_of_pointer hentry hmem, ← ih (hample.erase hentry)]
      exact hd.symm
  | case7 unvisited p hnew a t hl hmem =>
      exact (follow_of_struck (lookUp_eq_ok_iff.1 hl) hmem).symm

theorem Sound.resolve_fst (h : Sound d known) (p : String) :
    (Resolver.resolve d p known).1 = d.resolve p :=
  h.follow_fst (ample_unvisitedAfter p)

/-- A pointer resolves, with a resolver that has met nothing yet, to the
outcome of its trail, and to nothing else. Resolution always ends, since there
is an outcome for every pointer. -/
theorem resolve_eq_iff_outcome (d : Document) (p : String)
    (answer : Except ResolveError Found) :
    (Resolver.resolve d p []).1 = answer ↔ Outcome d p answer := by
  rw [(sound_nil d).resolve_fst p]
  refine ⟨fun h => ?_, Outcome.resolve_eq⟩
  obtain ⟨outcome, houtcome⟩ := exists_outcome d p
  rw [← h, houtcome.resolve_eq]
  exact houtcome

end Resolver

end ApiForge
