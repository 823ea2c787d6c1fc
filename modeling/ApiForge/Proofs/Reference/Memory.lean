import ApiForge.Proofs.Reference.Trail
/-!
What a resolver remembers.

# Answers

A resolver that has been asked any questions before answers as one that has
been asked none: what it remembers is sound, and `Sound.follow_fst` needs no
more.

# Memory

A resolver remembers the pointers that it has met and that lead to a
component, each with that component and each once (`Remembers`). What it has
met is given by trails alone, so it does not matter where a run found a pointer
remembered and went no further: the rest of its trail had been met before
(`Remembers.closed`). One question adds the trail of its pointer, whether it
is answered or fails (`Remembers.follow`); for a list of questions this is
iterated (`Remembers.askAll`).
-/

namespace ApiForge.Resolver

open Document

-- ================================================ statement vocabulary

/-- A question to a resolver. -/
inductive Question where
  /-- What a pointer leads to. -/
  | any (pointer : String)
  /-- The same, if it is of a kind. -/
  | ofKind (expected : EntryKind) (pointer : String)

namespace Question

/-- The pointer that is asked for. -/
def pointer : Question → String
  | any p => p
  | ofKind _ p => p

/-- Puts the question to a resolver. -/
def ask (d : Document) : Question → Resolving Found
  | any p => Resolver.resolve d p
  | ofKind expected p => Resolver.resolveAs d expected p

end Question

/-- Puts questions to one resolver, one after the other; a failure does not
keep it from the next. -/
def askAll (d : Document) :
    List Question → StateM Resolver (List (Except ResolveError Found))
  | [] => return []
  | q :: rest => do
    let answer ← q.ask d
    let answers ← askAll d rest
    return answer :: answers

/-- The trails of the questions' pointers get to a pointer. -/
def Met (d : Document) (questions : List Question) (p : String) : Prop :=
  ∃ q ∈ questions, Reaches d q.pointer p

/-- A resolver remembers what has been met and leads to a component, and
nothing twice. -/
structure Remembers (d : Document) (met : String → Prop) (known : Resolver) :
    Prop where
  /-- Trails have been met to their end. -/
  closed : ∀ p q, met p → Reaches d p q → met q
  mem_iff : ∀ p f, (p, f) ∈ known ↔ met p ∧ Leads d p f
  nodup : (known.map Prod.fst).Nodup

variable {d : Document} {met met' : String → Prop} {known : Resolver}
variable {p q t : String} {a : Address} {f : Found} {unvisited : List String}

-- ============================================================ one pointer

theorem remembers_nil (d : Document) : Remembers d (fun _ => False) [] where
  closed := fun _ _ h => h.elim
  mem_iff := fun p f => by simp
  nodup := List.nodup_nil

/-- In a list that binds nothing twice, what is bound is found. -/
theorem lookup_eq_some_iff_mem (h : (known.map Prod.fst).Nodup) :
    known.lookup p = some f ↔ (p, f) ∈ known := by
  induction known with
  | nil => simp
  | cons b known ih =>
      obtain ⟨q, g⟩ := b
      obtain ⟨hq, hrest⟩ := List.nodup_cons.1 h
      rw [List.lookup_cons, List.mem_cons, Prod.mk.injEq]
      rcases eq_or_ne p q with rfl | hne
      · have hout : (p, f) ∉ known := fun hmem =>
          hq (List.mem_map.2 ⟨(p, f), hmem, rfl⟩)
        simp [hout, eq_comm]
      · have hpq : (p == q) = false := beq_eq_false_iff_ne.2 hne
        simp [hpq, hne, ih hrest]

theorem Remembers.lookup_iff (h : Remembers d met known) :
    known.lookup p = some f ↔ met p ∧ Leads d p f :=
  (lookup_eq_some_iff_mem h.nodup).trans (h.mem_iff p f)

theorem Remembers.sound (h : Remembers d met known) : Sound d known :=
  fun b hb => ((h.mem_iff b.1 b.2).1 hb).2

/-- A pointer that is not found is not remembered. -/
theorem Remembers.not_mem (h : Remembers d met known)
    (hnew : known.lookup p = none) (f : Found) : (p, f) ∉ known := by
  intro hmem
  rw [(lookup_eq_some_iff_mem h.nodup).2 hmem] at hnew
  cases hnew

/-- What has been met and leads nowhere leaves the memory as it is. -/
theorem Remembers.meet (h : Remembers d met known)
    (hclosed : ∀ p q, met' p → Reaches d p q → met' q)
    (hsame : ∀ p f, Leads d p f → (met' p ↔ met p)) :
    Remembers d met' known where
  closed := hclosed
  mem_iff := fun p f => by
    rw [h.mem_iff]
    exact and_congr_left fun hleads => (hsame p f hleads).symm
  nodup := h.nodup

/-- A pointer whose trail has been met otherwise is remembered with the
component that it leads to. -/
theorem Remembers.insert (h : Remembers d met known) (hleads : Leads d p f)
    (hnew : ∀ g, (p, g) ∉ known)
    (hclosed : ∀ q, Reaches d p q → q = p ∨ met q) :
    Remembers d (fun q => q = p ∨ met q) ((p, f) :: known) where
  closed := by
    rintro q r (rfl | hq) hr
    · exact hclosed r hr
    · exact .inr (h.closed q r hq hr)
  mem_iff := fun q g => by
    rw [List.mem_cons, h.mem_iff, Prod.mk.injEq]
    constructor
    · rintro (⟨rfl, rfl⟩ | ⟨hq, hg⟩)
      · exact ⟨.inl rfl, hleads⟩
      · exact ⟨.inr hq, hg⟩
    · rintro ⟨rfl | hq, hg⟩
      · exact .inl ⟨rfl, hg.unique hleads⟩
      · exact .inr ⟨hq, hg⟩
  nodup := by
    rw [List.map_cons, List.nodup_cons]
    refine ⟨fun hp => ?_, h.nodup⟩
    obtain ⟨⟨q, g⟩, hmem, rfl⟩ := List.mem_map.1 hp
    exact hnew g hmem

/-- What has been met with the trail of one more pointer. -/
def alsoMet (d : Document) (met : String → Prop) (p q : String) : Prop :=
  met q ∨ Reaches d p q

theorem Remembers.alsoMet_closed (h : Remembers d met known) (p q r : String)
    (hq : alsoMet d met p q) (hr : Reaches d q r) : alsoMet d met p r :=
  hq.imp (fun hq => h.closed q r hq hr) fun hq => hq.trans hr

theorem alsoMet_of_pointer (h : d.Entry p a (.pointer t)) :
    alsoMet d met p q ↔ q = p ∨ alsoMet d met t q := by
  rw [alsoMet, h.reaches_iff, or_left_comm, alsoMet]

/-- A pointer that leads nowhere does not count among what is met. -/
theorem alsoMet_of_failing (h : d.Entry p a (.pointer t))
    (hp : ∀ f, ¬ Leads d p f) (hf : Leads d q f) :
    alsoMet d met p q ↔ alsoMet d met t q := by
  rw [alsoMet_of_pointer h]
  refine or_iff_right ?_
  rintro rfl
  exact hp f hf

theorem alsoMet_of_stops (h : Stops d p) :
    alsoMet d met p q ↔ q = p ∨ met q := by
  rw [alsoMet, h.reaches_iff, or_comm]

/-- Once the pointer behind has been followed, a pointer that leads nowhere is
not remembered. -/
theorem Remembers.of_failing {known' : Resolver} (h : Remembers d met known)
    (hbehind : Remembers d (alsoMet d met t) known')
    (hentry : d.Entry p a (.pointer t)) (hp : ∀ f, ¬ Leads d p f) :
    Remembers d (alsoMet d met p) known' :=
  hbehind.meet (h.alsoMet_closed p) fun _ _ => alsoMet_of_failing hentry hp

/-- Once the pointer behind has been followed, a pointer that leads to a
component is remembered. It has not been so on the way, since its trail does
not come back to it. -/
theorem Remembers.of_leading {known' : Resolver} (h : Remembers d met known)
    (hbehind : Remembers d (alsoMet d met t) known')
    (hentry : d.Entry p a (.pointer t)) (hnew : known.lookup p = none)
    (hleads : Leads d p f) :
    Remembers d (alsoMet d met p) ((p, f) :: known') := by
  have hnew' (g : Found) : (p, g) ∉ known' := by
    intro hp
    obtain ⟨passed, q, htrail, hend⟩ := hleads.trail
    rcases ((hbehind.mem_iff p g).1 hp).1 with hmet | ⟨back, hback⟩
    · exact h.not_mem hnew f ((h.mem_iff p f).2 ⟨hmet, hleads⟩)
    · exact htrail.no_return hend.stops hentry hback
  have hclosed (q : String) (hq : Reaches d p q) : q = p ∨ alsoMet d met t q :=
    (alsoMet_of_pointer hentry).1 (.inr hq)
  exact (hbehind.insert hleads hnew' hclosed).meet (h.alsoMet_closed p)
    fun _ _ _ => alsoMet_of_pointer hentry

/-- Following a pointer adds its trail to what has been met. The induction is
on the pointers that may still be passed; a pointer is remembered on the way
back, when the rest of its trail has been. -/
theorem Remembers.follow (h : Remembers d met known)
    (hample : Ample d unvisited p) :
    Remembers d (alsoMet d met p) (Resolver.follow d unvisited p known).2 := by
  fun_induction Resolver.follow d unvisited p known with
  | case1 unvisited p f hknown =>
      -- the trail of a remembered pointer has been met before
      have hmet : met p := (h.lookup_iff.1 hknown).1
      refine h.meet (h.alsoMet_closed p) fun q g _ => ?_
      exact or_iff_left_of_imp fun hreach => h.closed p q hmet hreach
  | case2 unvisited p hnew e hl =>
      have hfault := lookUp_eq_error_iff.1 hl
      refine h.meet (h.alsoMet_closed p) fun q g hg => ?_
      rw [alsoMet_of_stops hfault.stops]
      refine or_iff_right ?_
      rintro rfl
      exact hfault.not_leads hg
  | case3 unvisited p hnew a c hl =>
      have hentry := lookUp_eq_ok_iff.1 hl
      have hclosed (q : String) (hq : Reaches d p q) : q = p ∨ met q :=
        .inl (hentry.stops.reaches_iff.1 hq)
      refine (h.insert ⟨[], .here hl⟩ (h.not_mem hnew) hclosed).meet
        (h.alsoMet_closed p) fun q g _ => ?_
      exact alsoMet_of_stops hentry.stops
  | case4 unvisited p hnew a t hl hmem e known' hrest ih =>
      have hentry := lookUp_eq_ok_iff.1 hl
      have htarget := h.sound.follow_fst (hample.erase hentry)
      rw [hrest] at ih htarget
      have hfollow : d.follow unvisited p = .error e := by
        rw [follow_of_pointer hentry hmem, ← htarget]
        rfl
      exact h.of_failing (ih (hample.erase hentry)) hentry fun _ =>
        not_leads_of_follow hample hfollow
  | case5 unvisited p hnew a t hl hmem f known' hrest e hd ih =>
      have hentry := lookUp_eq_ok_iff.1 hl
      have htarget := h.sound.follow_fst (hample.erase hentry)
      rw [hrest] at ih htarget
      have hfollow : d.follow unvisited p = .error e := by
        rw [follow_of_pointer hentry hmem, ← htarget]
        exact hd
      exact h.of_failing (ih (hample.erase hentry)) hentry fun _ =>
        not_leads_of_follow hample hfollow
  | case6 unvisited p hnew a t hl hmem f known' hrest g hd ih =>
      have hentry := lookUp_eq_ok_iff.1 hl
      have htarget := h.sound.follow_fst (hample.erase hentry)
      rw [hrest] at ih htarget
      have hfollow : d.follow unvisited p = .ok g := by
        rw [follow_of_pointer hentry hmem, ← htarget]
        exact hd
      exact h.of_leading (ih (hample.erase hentry)) hentry hnew
        (follow_leads hfollow)
  | case7 unvisited p hnew a t hl hmem =>
      -- no trail through `p` stops, so none of what it meets is remembered
      have hentry := lookUp_eq_ok_iff.1 hl
      refine h.meet (h.alsoMet_closed p) fun q g hg => ?_
      refine or_iff_left_of_imp fun hreach => ?_
      obtain ⟨passed, hto⟩ := hreach
      obtain ⟨behind, r, htrail, hend⟩ := hg.trail
      exact absurd (hample.mem hentry (hto.trans htrail) hend.stops) hmem

-- =============================================================== counting

/-- As many pointers are remembered as have been met and lead to a
component. -/
theorem Remembers.encard (h : Remembers d met known) :
    {p | met p ∧ ∃ f, Leads d p f}.encard = known.size := by
  have hkeys : {p | met p ∧ ∃ f, Leads d p f} = {p | ∃ f, (p, f) ∈ known} := by
    ext p
    simp only [Set.mem_ofPred_eq, h.mem_iff, exists_and_left]
  rw [hkeys, Distinct.encard_keys h.nodup, size]

-- ============================================================== questions

/-- What is remembered does not show in the answer for a kind. -/
theorem Sound.resolveAs_fst (h : Sound d known) (expected : EntryKind)
    (p : String) :
    (Resolver.resolveAs d expected p known).1 = d.resolveAs expected p := by
  have hresolve := h.resolve_fst p
  rw [Document.resolveAs, ← hresolve, Resolver.resolveAs]
  obtain ⟨answer, known'⟩ := Resolver.resolve d p known
  cases answer with
  | error e => rfl
  | ok f => rfl

/-- Asking for a kind leaves in memory what asking for any does. -/
theorem resolveAs_snd (expected : EntryKind) (p : String) (known : Resolver) :
    (Resolver.resolveAs d expected p known).2
      = (Resolver.resolve d p known).2 := by
  rw [Resolver.resolveAs]
  obtain ⟨answer, known'⟩ := Resolver.resolve d p known
  cases answer with
  | error e => rfl
  | ok f => rfl

/-- A question is answered as by a resolver that has met nothing. -/
theorem Sound.ask_fst (h : Sound d known) (q : Question) :
    (q.ask d known).1 = (q.ask d []).1 := by
  cases q with
  | any p =>
      exact (h.resolve_fst p).trans ((sound_nil d).resolve_fst p).symm
  | ofKind expected p =>
      exact (h.resolveAs_fst expected p).trans
        ((sound_nil d).resolveAs_fst expected p).symm

/-- A question adds the trail of its pointer to what has been met. -/
theorem Remembers.ask (h : Remembers d met known) (q : Question) :
    Remembers d (alsoMet d met q.pointer) (q.ask d known).2 := by
  have hfollow := h.follow (ample_unvisitedAfter q.pointer)
  cases q with
  | any p => exact hfollow
  | ofKind expected p =>
      rw [Question.ask, resolveAs_snd]
      exact hfollow

/-- One question after the other: each is answered as by a resolver that has
met nothing, and all their trails have been met in the end. -/
theorem Remembers.askAll (h : Remembers d met known)
    (questions : List Question) :
    (Resolver.askAll d questions known).1
        = questions.map (fun q => (q.ask d []).1)
      ∧ Remembers d (fun p => met p ∨ Met d questions p)
          (Resolver.askAll d questions known).2 := by
  induction questions generalizing met known with
  | nil =>
      have hmet : (fun p => met p ∨ Met d [] p) = met := by
        funext p
        simp [Met]
      rw [hmet]
      exact ⟨rfl, h⟩
  | cons q rest ih =>
      -- the first question is answered as if alone, and leaves its trail in memory
      obtain ⟨hanswers, hknown⟩ := ih (h.ask q)
      have hrun : Resolver.askAll d (q :: rest) known
          = ((q.ask d known).1 :: (Resolver.askAll d rest (q.ask d known).2).1,
              (Resolver.askAll d rest (q.ask d known).2).2) := rfl
      have hmet : (fun p => met p ∨ Met d (q :: rest) p)
          = fun p => alsoMet d met q.pointer p ∨ Met d rest p := by
        funext p
        simp [Met, alsoMet, or_assoc]
      rw [hrun, hmet]
      refine ⟨?_, hknown⟩
      rw [List.map_cons, ← h.sound.ask_fst q, ← hanswers]

-- ============================================================ main result

/-- Memory does not show: any questions to a resolver that begins with nothing
are each answered as if it were the first. In the end the resolver knows just
the pointers on the trails of these questions that resolve, each with what it
resolves to, and its size is their number. -/
theorem askAll_transparent (d : Document) (questions : List Question) :
    (askAll d questions []).1 = questions.map (fun q => (q.ask d []).1)
      ∧ (∀ p f, (askAll d questions []).2.lookup p = some f
          ↔ Met d questions p ∧ (Resolver.resolve d p []).1 = .ok f)
      ∧ {p | Met d questions p
            ∧ ∃ f, (Resolver.resolve d p []).1 = .ok f}.encard
          = size (askAll d questions []).2 := by
  obtain ⟨hanswers, hknown⟩ := (remembers_nil d).askAll questions
  simp only [false_or] at hknown
  simp only [(sound_nil d).resolve_fst, resolve_eq_ok_iff]
  exact ⟨hanswers, fun p f => hknown.lookup_iff, hknown.encard⟩

end ApiForge.Resolver
