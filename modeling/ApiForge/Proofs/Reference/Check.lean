import ApiForge.Proofs.Document.Place
import ApiForge.Proofs.Reference.Memory
/-!
What the reference check says about a document.

The check resolves a list of references up to the first that fails. Since
memory does not show in answers, it can be described by the outcomes of the
references themselves (`checkAll_eq_ok_iff`, `checkAll_eq_error_iff`). What
counts as an outcome is said by the trail of a pointer and the kind that its
place asks for (`Document.OutcomeAs`). The references in
the list of a document are those that stand at a place, and the first in the
list has the first place (`Document.first_occurrence_iff`). So the check passes
just when every reference of the document resolves, and counts them, and
otherwise fails with the first that does not (`checkReferences_exact`).
-/

namespace ApiForge

-- ================================================ statement vocabulary

/-- What a pointer resolves to when a kind is asked for: its outcome, unless
this is a component of another kind. That is an error about the pointer
itself. -/
inductive Document.OutcomeAs (d : Document) (expected : EntryKind) (p : String) :
    Except ResolveError Found → Prop
  | found {f : Found} :
      Outcome d p (.ok f) → f.component.kind = expected →
      OutcomeAs d expected p (.ok f)
  | other {f : Found} :
      Outcome d p (.ok f) → f.component.kind ≠ expected →
      OutcomeAs d expected p (.error (.kindMismatch p expected))
  | fault {e : ResolveError} :
      Outcome d p (.error e) → OutcomeAs d expected p (.error e)

namespace Resolver

open Document

/-- A reference leads to a component of the kind that its place asks for. -/
def Resolves (d : Document) (o : Occurrence) : Prop :=
  ∃ f, OutcomeAs d o.kind o.pointer (.ok f)

/-- A reference does not, for a reason, and the error names its location. -/
def Fails (d : Document) (o : Occurrence) (e : ReferenceError) : Prop :=
  OutcomeAs d o.kind o.pointer (.error e.cause) ∧ e.location = o.location

variable {d : Document} {known : Resolver}

-- =============================================================== one step

/-- Asking a resolver that has met nothing for a kind is answered with the
outcome of the pointer for this kind, and with nothing else. -/
theorem resolveAs_eq_iff_outcomeAs (d : Document) (expected : EntryKind)
    (p : String) (answer : Except ResolveError Found) :
    (Resolver.resolveAs d expected p []).1 = answer
      ↔ OutcomeAs d expected p answer := by
  have houtcome := resolve_eq_iff_outcome d p
  rw [Resolver.resolveAs]
  generalize Resolver.resolve d p [] = run at houtcome
  obtain ⟨resolved, known⟩ := run
  have hresolved : Outcome d p resolved := (houtcome resolved).1 rfl
  constructor
  · rintro rfl
    cases resolved with
    | error e => exact .fault hresolved
    | ok f =>
        dsimp only [demand]
        split
        · next hkind => exact .found hresolved hkind
        · next hkind => exact .other hresolved hkind
  · -- the pointer has one outcome only, so each rule names the answer
    rintro (⟨hf, hkind⟩ | ⟨hf, hkind⟩ | he)
    · cases (houtcome _).2 hf
      exact if_pos hkind
    · cases (houtcome _).2 hf
      exact if_neg hkind
    · cases (houtcome _).2 he
      rfl

theorem resolves_iff {o : Occurrence} :
    Resolves d o ↔ ∃ f, (Resolver.resolveAs d o.kind o.pointer []).1 = .ok f :=
  exists_congr fun _ => (resolveAs_eq_iff_outcomeAs ..).symm

/-- A reference fails with the cause that a new resolver gives, at its own location. -/
theorem fails_iff {o : Occurrence} {e : ReferenceError} :
    Fails d o e
      ↔ (Resolver.resolveAs d o.kind o.pointer []).1 = .error e.cause
        ∧ e.location = o.location :=
  and_congr_left' (resolveAs_eq_iff_outcomeAs ..).symm

/-- A reference that fails does not resolve. -/
theorem Fails.not_resolves {o : Occurrence} {e : ReferenceError}
    (h : Fails d o e) : ¬ Resolves d o := by
  intro hresolves
  obtain ⟨f, hf⟩ := resolves_iff.1 hresolves
  rw [(fails_iff.1 h).1] at hf
  cases hf

/-- A reference fails with one error only. -/
theorem Fails.unique {o : Occurrence} {e e' : ReferenceError}
    (h : Fails d o e) (h' : Fails d o e') : e = e' := by
  obtain ⟨location, cause⟩ := e
  obtain ⟨location', cause'⟩ := e'
  obtain ⟨hcause, rfl⟩ := fails_iff.1 h
  obtain ⟨hcause', rfl⟩ := fails_iff.1 h'
  cases hcause.symm.trans hcause'
  rfl

/-- One step of the check: a reference resolves and the rest is checked, or it
fails and the check is over. -/
theorem Sound.checkAll_cons (h : Sound d known) (o : Occurrence)
    (os : List Occurrence) (n : Nat) :
    (Resolves d o ∧ ∃ known', Sound d known'
        ∧ (checkAll d (o :: os) n known).1 = (checkAll d os (n + 1) known').1)
      ∨ ∃ e, Fails d o e ∧ (checkAll d (o :: os) n known).1 = .error e := by
  obtain ⟨hsound, -⟩ := h.resolveAs o.kind o.pointer
  have hfresh := ((h.resolveAs_fst o.kind o.pointer).trans
    ((sound_nil d).resolveAs_fst o.kind o.pointer).symm).symm
  rw [checkAll]
  cases hrun : Resolver.resolveAs d o.kind o.pointer known with
  | mk answer known' =>
      rw [hrun] at hsound hfresh
      cases answer with
      | ok f => exact .inl ⟨resolves_iff.2 ⟨f, hfresh⟩, known', hsound, rfl⟩
      | error e => exact .inr ⟨⟨o.location, e⟩, fails_iff.2 ⟨hfresh, rfl⟩, rfl⟩

/-- The check passes just when all references resolve, and counts them. -/
theorem checkAll_eq_ok_iff {os : List Occurrence} {n m : Nat}
    (h : Sound d known) :
    (checkAll d os n known).1 = .ok m
      ↔ (∀ o ∈ os, Resolves d o) ∧ m = n + os.length := by
  induction os generalizing n known with
  | nil =>
      rw [checkAll, Except.ok.injEq]
      simp [eq_comm]
  | cons o os ih =>
      rw [List.forall_mem_cons, List.length_cons]
      rcases h.checkAll_cons o os n with ⟨ho, known', h', hrest⟩ | ⟨e, he, hrest⟩
      · rw [hrest, ih h']
        simp only [ho, true_and, Nat.add_right_comm n 1, Nat.add_assoc]
      · rw [hrest]
        simp [he.not_resolves]

/-- The check fails just when a reference does not resolve, with the first of
them. -/
theorem checkAll_eq_error_iff {os : List Occurrence} {n : Nat}
    {e : ReferenceError} (h : Sound d known) :
    (checkAll d os n known).1 = .error e
      ↔ ∃ before o after, os = before ++ o :: after ∧ Fails d o e
          ∧ ∀ o' ∈ before, Resolves d o' := by
  induction os generalizing n known with
  | nil =>
      rw [checkAll]
      simp
  | cons o os ih =>
      -- the first reference resolves and leaves the check to the others, or ends it
      rcases h.checkAll_cons o os n with ⟨ho, known', h', hrest⟩ | ⟨e', he', hrest⟩
      · rw [hrest, ih h']
        constructor
        · rintro ⟨before, x, after, rfl, hx, hbefore⟩
          exact ⟨o :: before, x, after, rfl, hx,
            List.forall_mem_cons.2 ⟨ho, hbefore⟩⟩
        · rintro ⟨before, x, after, hsplit, hx, hbefore⟩
          cases before with
          | nil =>
              cases hsplit
              exact absurd ho hx.not_resolves
          | cons y before =>
              cases hsplit
              exact ⟨before, x, after, rfl, hx, fun o' ho' =>
                hbefore o' (List.mem_cons_of_mem _ ho')⟩
      · rw [hrest, Except.error.injEq]
        constructor
        · rintro rfl
          exact ⟨[], o, os, rfl, he', fun _ h => absurd h List.not_mem_nil⟩
        · rintro ⟨before, x, after, hsplit, hx, hbefore⟩
          cases before with
          | nil =>
              cases hsplit
              exact he'.unique hx
          | cons y before =>
              cases hsplit
              exact absurd (hbefore _ (List.mem_cons_self ..)) he'.not_resolves

-- ============================================================ main result

/-- Every resolver that has answered questions is sound. -/
theorem sound_askAll (d : Document) (questions : List Question) :
    Sound d (askAll d questions []).2 :=
  ((remembers_nil d).askAll questions).2.sound

/-- The check of a document ends on every document, and says what it should,
whatever its resolver has been asked before. It passes just when every
reference of the document resolves to the kind that its place asks for, and
then answers how many references there are. It fails just with the first
reference, by place, that does not resolve: with the reason why it does not,
and its location. -/
theorem checkReferences_exact (d : Document) (questions : List Question) :
    (∀ n : Nat,
      (Resolver.checkReferences d (askAll d questions []).2).1 = .ok n
        ↔ (∀ place o, d.Refers place o → Resolves d o)
          ∧ {place | ∃ o, d.Refers place o}.encard = n)
    ∧ ∀ e : ReferenceError,
      (Resolver.checkReferences d (askAll d questions []).2).1 = .error e
        ↔ ∃ place o, d.Refers place o ∧ Fails d o e
          ∧ ∀ place' < place, ∀ o', d.Refers place' o' → Resolves d o' := by
  have hsound := sound_askAll d questions
  constructor
  · intro n
    rw [Resolver.checkReferences, checkAll_eq_ok_iff hsound,
      d.forall_occurrences_iff, d.encard_places, Nat.zero_add, Nat.cast_inj,
      eq_comm (a := n)]
  · intro e
    rw [Resolver.checkReferences, checkAll_eq_error_iff hsound]
    exact d.first_occurrence_iff

end Resolver

end ApiForge
