import ApiForge.Proofs.Artifact.Offers
/-!
The loop that works off the queue of hoisted shapes.

`Definition.drain` repeats two steps: it takes the oldest shape whose name is
free, and defines it, which may queue more shapes. It counts the repetitions and
has a bound for them. `Definition.Runs` is the loop without a bound: a run ends
only when the queue has nothing left to take. A run has a history, that is the
shapes that were taken and the shapes that were queued meanwhile.

# It ends

The queue may grow while it is worked off, in the number of shapes and also in
the number of names. But what a definition queues stands inside the shape that
was taken, so the shapes in the queue, counted with all shapes inside them, get
fewer (`runs_drainWithin`). So each state has a run, and only one
(`Runs.unique`), and this is what `drain` does.

# What it defines

What was in the queue at the beginning and what was added to it are offers, and a
run gives names to the first under each (`Runs.drained`). Hence just the names
are defined that are queued at some time and were free at the beginning, each of
them once and for the shape that was queued first under it (`drain_exact`).
-/

namespace ApiForge

-- ================================================================== history

namespace Hoist

open Hoisted (firsts hoists)

/-- Working through a queue gives names to shapes: `given` are those offers in
the history of the queue that are the first under their names, when those in
`h` are taken. -/
structure Drained (h : Hoist) (given : List Hoisted) (h' : Hoist) : Prop where
  /-- Some history begins with what is queued, and goes on with what is hoisted
  out of the definitions that are made. -/
  history : ∃ queue, queue = h.pending ++ given.flatMap hoists
    ∧ given = firsts h.claimed queue
  pending : h'.pending = []
  claimed : h'.claimed = (given.map (·.name)).reverse ++ h.claimed

variable {h : Hoist}

/-- Nothing is given when all names in the queue are taken. -/
theorem drained_none (hnone : firstFree h.claimed h.pending = none) :
    Drained h [] { h with pending := [] } where
  history := by
    refine ⟨h.pending, (List.append_nil _).symm, ?_⟩
    exact (Hoisted.firsts_of_taken (firstFree_none hnone)).symm
  pending := rfl
  claimed := rfl

/-- The next name is given to the oldest shape whose name is free; what is
hoisted out of it goes to the end of the queue. -/
theorem Drained.cons {p : Hoisted} {rest given : List Hoisted} {h' : Hoist}
    (hnext : firstFree h.claimed h.pending = some (p, rest))
    (hrest : Drained ⟨rest ++ hoists p, p.name :: h.claimed⟩ given h') :
    Drained h (p :: given) h' where
  history := by
    -- the shapes in front of it have names that are taken, and add nothing
    obtain ⟨skipped, hpending, hskipped, hfree⟩ := firstFree_split hnext
    obtain ⟨queue, hqueue, hgiven⟩ := hrest.history
    refine ⟨skipped ++ p :: queue, ?_, ?_⟩
    · rw [hqueue, hpending, List.flatMap_cons]
      simp only [List.append_assoc, List.cons_append]
    · have htaken (n : String) :
          n ∈ skipped.map (·.name) ++ h.claimed ↔ n ∈ h.claimed := by
        rw [List.mem_append]
        refine or_iff_right_of_imp fun hn => ?_
        obtain ⟨q, hq, rfl⟩ := List.mem_map.1 hn
        exact hskipped q hq
      rw [Hoisted.firsts_append, Hoisted.firsts_of_taken hskipped,
        Hoisted.firsts_congr htaken, Hoisted.firsts_cons_of_not_mem hfree,
        ← hgiven]
      rfl
  pending := hrest.pending
  claimed := by
    rw [hrest.claimed, List.map_cons, List.reverse_cons, List.append_assoc]
    rfl

-- ==================================================================== steps

variable {p : Hoisted} {rest : List Hoisted} {h' : Hoist}

theorem next_of_none (hnone : firstFree h.claimed h.pending = none) :
    h.next = (none, { h with pending := [] }) := by
  rw [next, hnone]

theorem next_of_some (hsome : firstFree h.claimed h.pending = some (p, rest)) :
    h.next = (some p, ⟨rest, p.name :: h.claimed⟩) := by
  rw [next, hsome]

/-- Nothing is taken only when no name in the queue is free, and then the queue
is emptied. -/
theorem next_eq_none (hnext : h.next = (none, h')) :
    firstFree h.claimed h.pending = none ∧ h' = { h with pending := [] } := by
  cases hfree : firstFree h.claimed h.pending with
  | none =>
      rw [next_of_none hfree] at hnext
      cases hnext
      exact ⟨rfl, rfl⟩
  | some found => rw [next_of_some hfree] at hnext; cases hnext

/-- What is taken is the oldest shape whose name is free; the name is given to
it, and what stands behind it stays in the queue. -/
theorem next_eq_some (hnext : h.next = (some p, h')) :
    ∃ rest, firstFree h.claimed h.pending = some (p, rest)
      ∧ h' = ⟨rest, p.name :: h.claimed⟩ := by
  cases hfree : firstFree h.claimed h.pending with
  | none => rw [next_of_none hfree] at hnext; cases hnext
  | some found =>
      rw [next_of_some hfree] at hnext
      cases hnext
      exact ⟨found.2, rfl, rfl⟩

/-- Taking a shape and queueing what is hoisted out of it makes the queue
lighter. -/
theorem weight_turn_lt
    (hsome : firstFree h.claimed h.pending = some (p, rest)) :
    Hoisted.weight (rest ++ hoists p) < Hoisted.weight h.pending := by
  obtain ⟨-, -, -, -, hweight⟩ := firstFree_some hsome
  have hhoists := p.weight_hoists_lt
  rw [Hoisted.weight_append]
  omega

/-- A step that goes on with the answer of another, from the state that this
one leaves. -/
theorem bind_run {α β : Type} (m : StateM Hoist α) (f : α → StateM Hoist β)
    (h : Hoist) : (m >>= f) h = f (m h).1 (m h).2 := rfl

/-- A name that is given is not given again. -/
theorem claim_taken {name : String} {h : Hoist} (hmem : name ∈ h.claimed) :
    claim name h = (false, h) := by
  rw [claim, if_pos (List.contains_iff_mem.2 hmem)]

theorem claim_free {name : String} {h : Hoist} (hfree : name ∉ h.claimed) :
    claim name h = (true, { h with claimed := name :: h.claimed }) := by
  rw [claim, if_neg (mt List.contains_iff_mem.1 hfree)]

end Hoist

namespace Definition

open Hoist
open Hoisted (holder hoists weight)

variable {c : Catalog} {h : Hoist}

/-- With no free name in the queue nothing is defined. -/
theorem drainWithin_none (left : Nat)
    (hnone : firstFree h.claimed h.pending = none) :
    drainWithin c (left + 1) h = ([], { h with pending := [] }) := by
  rw [drainWithin, bind_run, next_of_none hnone]
  rfl

/-- With a free name in it, its shape is defined, and the rest of the queue with what
that added. -/
theorem drainWithin_some (left : Nat) {p : Hoisted} {rest : List Hoisted}
    (hsome : firstFree h.claimed h.pending = some (p, rest)) :
    drainWithin c (left + 1) h
      = let (ds, h') := drainWithin c left
          ⟨rest ++ hoists p, p.name :: h.claimed⟩
        (Definition.of c p.name none p.shape :: ds, h') := by
  rw [drainWithin, bind_run, next_of_some hsome]
  dsimp only
  rw [bind_run, ofShape_eq]
  rfl

-- ===================================================================== runs

/-- The loop from a state: `given` are the shapes that it takes, in order, and
`queued` those that its definitions add to the queue. It answers with the
definitions and the state that it leaves. -/
inductive Runs (c : Catalog) :
    Hoist → List Hoisted → List Hoisted → List Definition × Hoist → Prop
  /-- Nothing is left to take. -/
  | stop {h h' : Hoist} (hnext : h.next = (none, h')) : Runs c h [] [] ([], h')
  /-- A shape is taken and defined, and the loop goes on. -/
  | turn {h h₁ h₂ h' : Hoist} {p : Hoisted} {d : Definition}
      {ds : List Definition} {given added queued : List Hoisted}
      (hnext : h.next = (some p, h₁))
      (hshape : ofShape c p.name none p.shape h₁ = (d, h₂))
      (hadded : h₂.pending = h₁.pending ++ added)
      (hrest : Runs c h₂ given queued (ds, h')) :
      Runs c h (p :: given) (added ++ queued) (d :: ds, h')

variable {given given' queued queued' : List Hoisted}
  {out out' : List Definition × Hoist}

/-- A state has one run at most. -/
theorem Runs.unique (hrun : Runs c h given queued out)
    (hrun' : Runs c h given' queued' out') :
    given = given' ∧ queued = queued' ∧ out = out' := by
  induction hrun generalizing given' queued' out' with
  | stop hnext =>
      -- the state decides whether a run stops or turns
      cases hrun' with
      | stop hnext' =>
          rw [hnext] at hnext'
          cases hnext'
          exact ⟨rfl, rfl, rfl⟩
      | turn hnext' => rw [hnext] at hnext'; cases hnext'
  | turn hnext hshape hadded _ ih =>
      cases hrun' with
      | stop hnext' => rw [hnext] at hnext'; cases hnext'
      | turn hnext' hshape' hadded' hrest' =>
          rw [hnext] at hnext'
          cases hnext'
          rw [hshape] at hshape'
          cases hshape'
          rw [hadded] at hadded'
          cases List.append_cancel_left hadded'
          obtain ⟨rfl, rfl, hout⟩ := ih hrest'
          cases hout
          exact ⟨rfl, rfl, rfl⟩

/-- While the bound exceeds the weight of the queue, the loop with a bound is
the loop without. -/
theorem runs_drainWithin {left : Nat} (hleft : weight h.pending < left) :
    ∃ given queued, Runs c h given queued (drainWithin c left h) := by
  induction left generalizing h with
  | zero => omega
  | succ left ih =>
      cases hfree : firstFree h.claimed h.pending with
      | none =>
          refine ⟨[], [], ?_⟩
          rw [drainWithin_none left hfree]
          exact .stop (next_of_none hfree)
      | some found =>
          obtain ⟨p, rest⟩ := found
          -- the turn makes the queue lighter, so a smaller bound does for the rest
          have hless : weight (rest ++ hoists p) < left := by
            have hturn := weight_turn_lt hfree
            omega
          obtain ⟨given, queued, hrun⟩ :=
            ih (h := ⟨rest ++ hoists p, p.name :: h.claimed⟩) hless
          refine ⟨p :: given, hoists p ++ queued, ?_⟩
          rw [drainWithin_some left hfree]
          have hshape := ofShape_eq (c := c) p.name none p.shape
            ⟨rest, p.name :: h.claimed⟩
          exact .turn (next_of_some hfree) hshape rfl hrun

/-- Draining is a run. -/
theorem runs_drain (c : Catalog) (h : Hoist) :
    ∃ given queued, Runs c h given queued (drain c h) :=
  runs_drainWithin (Nat.lt_succ_self _)

/-- A run gives names to the shapes that it takes, and queues what is hoisted
out of their definitions. -/
theorem Runs.drained (hrun : Runs c h given queued out) :
    Drained h given out.2 ∧ queued = given.flatMap hoists
      ∧ out.1 = given.map fun p => Definition.of c p.name none p.shape := by
  induction hrun with
  | stop hnext =>
      obtain ⟨hnone, rfl⟩ := next_eq_none hnext
      exact ⟨drained_none hnone, rfl, rfl⟩
  | turn hnext hshape hadded _ ih =>
      obtain ⟨rest, hsome, rfl⟩ := next_eq_some hnext
      rw [ofShape_eq] at hshape
      cases hshape
      cases List.append_cancel_left hadded
      obtain ⟨hdrained, rfl, rfl⟩ := ih
      exact ⟨.cons hsome hdrained, rfl, rfl⟩

/-- Draining defines the shapes to which it gives names, in order. -/
theorem drain_eq (c : Catalog) (h : Hoist) :
    ∃ given h', Drained h given h'
      ∧ drain c h
        = (given.map fun p => Definition.of c p.name none p.shape, h') := by
  obtain ⟨given, queued, hrun⟩ := runs_drain c h
  obtain ⟨hdrained, -, hdefinitions⟩ := hrun.drained
  exact ⟨given, _, hdrained, Prod.ext hdefinitions rfl⟩

-- =============================================================== main result

/-- What a run with a given history does to the queue `h`. -/
structure Exact (c : Catalog) (h : Hoist) (given queued : List Hoisted)
    (out : List Definition × Hoist) : Prop where
  empty : out.2.pending = []
  /-- The shapes that are taken are defined, in order. -/
  definitions :
    out.1 = given.map fun p => Definition.of c p.name none p.shape
  names : out.1.map (·.name) = given.map (·.name)
  nodup : (out.1.map (·.name)).Nodup
  /-- Each turn queues what is hoisted out of its definition. -/
  hoisted : queued = given.flatMap hoists
  /-- Shapes are taken in the order in which they stood in the queue. -/
  order : given.Sublist (h.pending ++ queued)
  /-- The first shape under a name in the queue is the one that is taken. -/
  first : ∀ p ∈ given, holder (h.pending ++ queued) p.name = some p
  /-- A name is defined if it is queued at some time and was free. -/
  defined : ∀ n, n ∈ out.1.map (·.name)
    ↔ n ∈ (h.pending ++ queued).map (·.name) ∧ n ∉ h.claimed
  claimed : out.2.claimed = (out.1.map (·.name)).reverse ++ h.claimed

/-- What a run does follows from its history. -/
theorem exact_of_runs (hrun : Runs c h given queued out) :
    Exact c h given queued out := by
  obtain ⟨hdrained, hqueued, hdefinitions⟩ := hrun.drained
  obtain ⟨queue, hqueue, hgiven⟩ := hdrained.history
  rw [← hqueued] at hqueue
  subst hqueue
  -- each definition bears the name of the shape that it is made from
  have hnames : out.1.map (·.name) = given.map (·.name) := by
    rw [hdefinitions, List.map_map]
    exact List.map_congr_left fun p _ =>
      (TypesModule.gives_of p.name none p.shape).1
  obtain ⟨hnodup, hfree⟩ :=
    Hoisted.nodup_firsts h.claimed (h.pending ++ queued)
  rw [← hgiven] at hnodup hfree
  refine ⟨hdrained.pending, hdefinitions, hnames, ?_, hqueued, ?_, ?_, ?_, ?_⟩
  · rw [hnames]
    exact hnodup
  · rw [hgiven]
    exact Hoisted.firsts_sublist ..
  · intro p hp
    rw [hgiven] at hp
    exact Hoisted.holder_of_mem_firsts hp
  · intro n
    -- a name is given exactly when it was queued and free at the beginning
    have hmem := Hoisted.mem_names_firsts h.claimed (h.pending ++ queued) n
    rw [← hgiven, ← hnames] at hmem
    have hnew : n ∈ out.1.map (·.name) → n ∉ h.claimed := by
      rw [hnames]
      intro hn
      obtain ⟨p, hp, rfl⟩ := List.mem_map.1 hn
      exact hfree p hp
    exact ⟨fun hn => ⟨(hmem.1 (.inl hn)).resolve_right (hnew hn), hnew hn⟩,
      fun ⟨hn, htaken⟩ => (hmem.2 (.inl hn)).resolve_right htaken⟩
  · rw [hnames]
    exact hdrained.claimed

/-- From every state the loop ends by itself, in one way only, with an empty
queue. It makes one definition for each name that was queued at the beginning,
or by one of its definitions, and was free: that of the first shape in the queue
under the name. Just these names are taken. -/
theorem drain_exact (c : Catalog) (h : Hoist) :
    ∃ given queued, Runs c h given queued (drain c h)
      ∧ (∀ given' queued' out, Runs c h given' queued' out →
          given' = given ∧ queued' = queued ∧ out = drain c h)
      ∧ Exact c h given queued (drain c h) := by
  obtain ⟨given, queued, hrun⟩ := runs_drain c h
  refine ⟨given, queued, hrun, ?_, exact_of_runs hrun⟩
  exact fun _ _ _ hrun' => hrun'.unique hrun

/-- A name that is taken is passed over, and a shape in the queue comes before
what is hoisted under its name: a pet has tags, each of them a record. -/
example :
    let tag : Shape := .record [⟨"label", none, true, .text⟩]
    let pet : Shape := .record [⟨"tags", none, true, .list tag⟩]
    let out := drain ⟨{}, [], [], []⟩ ⟨[⟨"Owner", .bool⟩, ⟨"Pet", pet⟩,
      ⟨"PetTagsItem", .choice ["red", "blue"]⟩], ["Owner"]⟩
    out.1.map (fun d => (d.name, d.body matches .enumeration _))
        = [("Pet", false), ("PetTagsItem", true)]
      ∧ out.2.claimed = ["PetTagsItem", "Pet", "Owner"] := by
  decide +kernel

end Definition

end ApiForge
