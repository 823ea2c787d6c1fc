import ApiForge.Proofs.Artifact.Queue
/-!
The turns in which the types of a document are defined.

There is one turn for each component schema. A turn offers the exported name to
the component's shape, and then, for each definition that it makes, offers names
to the inline shapes in that definition. `Offered` says this of the offers of all
turns in their order: the offers of a turn are the component itself and then what
is hoisted out of those offers in it that are the first under their names.

A turn works off a queue, and the history of the queue is a solution of that same
equation (`Definition.drain_eq`). So the types define the first offers under
their names, in order, and nothing else (`TypesModule.define_eq`).
-/

namespace ApiForge

variable {c : Catalog}

-- =================================================================== turns

/-- The offer that a component schema makes in its turn. -/
def CatalogEntry.offer (e : CatalogEntry) : Hoisted :=
  ⟨e.name, e.shape⟩

open Hoisted (firsts hoists)

/-- What is offered in the turns of component schemas, when some names have
been offered before. A turn offers the component, and then what is hoisted out
of the offers in it that are the first under their names. -/
inductive Offered : List String → List CatalogEntry → List Hoisted → Prop
  | nil (before : List String) : Offered before [] []
  | cons {before : List String} {e : CatalogEntry} {es : List CatalogEntry}
      {turn rest : List Hoisted} :
      turn = e.offer :: (firsts before turn).flatMap hoists →
      Offered (turn.map (·.name) ++ before) es rest →
      Offered before (e :: es) (turn ++ rest)

namespace Offered

variable {before : List String} {es : List CatalogEntry}
variable {offers offers' : List Hoisted}

/-- What is offered is determined. -/
theorem unique (h : Offered before es offers) (h' : Offered before es offers') :
    offers = offers' := by
  induction h generalizing offers' with
  | nil => cases h'; rfl
  | @cons before e es turn rest hturn _ ih =>
      cases h' with
      | @cons _ _ _ turn' rest' hturn' hrest' =>
          -- the history of a queue that holds the component only
          have hhistory : turn = [e.offer] ++ (firsts before turn).flatMap hoists :=
            hturn
          have hsame : turn = turn' := Hoisted.history_unique hhistory hturn'
          subst hsame
          rw [ih hrest']

/-- What is hoisted out of the first offers under their names is offered. -/
theorem hoists_subset (h : Offered before es offers) :
    ∀ p ∈ firsts before offers, p.hoists ⊆ offers := by
  induction h with
  | nil => exact fun p hp => absurd hp List.not_mem_nil
  | @cons before e es turn rest hturn _ ih =>
      intro p hp q hq
      rw [Hoisted.firsts_append] at hp
      rcases List.mem_append.1 hp with hp | hp
      · refine List.mem_append_left _ ?_
        rw [hturn]
        exact List.mem_cons_of_mem _ (List.mem_flatMap.2 ⟨p, hp, hq⟩)
      · exact List.mem_append_right _ (ih p hp hq)

/-- A component is offered its name, and before it there are only inline shapes
to which the name has been offered. -/
theorem component (h : Offered before es offers)
    (hdistinct : (es.map (·.name)).Nodup) {e : CatalogEntry} (he : e ∈ es) :
    ∃ front back, offers = front ++ e.offer :: back
      ∧ ∀ q ∈ front, q.name = e.name → ∃ o ∈ front, q ∈ o.hoists := by
  induction h with
  | nil => exact absurd he List.not_mem_nil
  | @cons before x es turn rest hturn _ ih =>
      rw [List.map_cons, List.nodup_cons] at hdistinct
      -- either it is the turn of this component, or an earlier one goes by
      rcases List.mem_cons.1 he with rfl | he
      · refine ⟨[], (firsts before turn).flatMap hoists ++ rest, ?_, ?_⟩
        · rw [List.nil_append, ← List.cons_append, ← hturn]
        · exact fun q hq => absurd hq List.not_mem_nil
      · obtain ⟨front, back, rfl, hfront⟩ := ih hdistinct.2 he
        refine ⟨turn ++ front, back, (List.append_assoc ..).symm, ?_⟩
        intro q hq hname
        rcases List.mem_append.1 hq with hq | hq
        · rw [hturn] at hq
          rcases List.mem_cons.1 hq with rfl | hq
          · -- another component does not have this name
            have hx : x.name ∈ es.map (·.name) :=
              List.mem_map.2 ⟨e, he, hname.symm⟩
            exact absurd hx hdistinct.1
          · obtain ⟨o, ho, hq⟩ := List.mem_flatMap.1 hq
            have ho := (Hoisted.firsts_sublist before turn).subset ho
            exact ⟨o, List.mem_append_left _ ho, hq⟩
        · obtain ⟨o, ho, hq⟩ := hfront q hq hname
          exact ⟨o, List.mem_append_right _ ho, hq⟩

end Offered

namespace TypesModule

/-- A component whose name is taken is passed over. -/
theorem define_taken {h : Hoist} {e : CatalogEntry}
    (hmem : e.name ∈ h.claimed) (rest : List CatalogEntry) :
    define c (e :: rest) h = define c rest h := by
  rw [define, Hoist.bind_run, Hoist.claim_taken hmem]
  rfl

/-- A component whose name is free is defined, and behind it what its turn hoists. -/
theorem define_free {h : Hoist} {e : CatalogEntry}
    (hfree : e.name ∉ h.claimed) (rest : List CatalogEntry) :
    define c (e :: rest) h
      = let (hoisted, h') := Definition.drain c
          ⟨h.pending ++ hoists e.offer, e.name :: h.claimed⟩
        let (ds, h'') := define c rest h'
        (Definition.of c e.name e.schema.ownDescription e.shape
          :: hoisted ++ ds, h'') := by
  rw [define, Hoist.bind_run, Hoist.claim_free hfree]
  dsimp only
  rw [if_pos rfl, Hoist.bind_run, Definition.ofShape_eq]
  rfl

/-- The types define the first offers under their names, in order. -/
theorem define_eq (c : Catalog) (es : List CatalogEntry) {h : Hoist}
    {before : List String} (hempty : h.pending = [])
    (hbefore : ∀ n, n ∈ h.claimed ↔ n ∈ before) :
    ∃ offers, Offered before es offers
      ∧ List.Forall₂ (Gives c) (define c es h).1 (firsts before offers) := by
  induction es generalizing h before with
  | nil => exact ⟨[], .nil before, .nil⟩
  | cons e es ih =>
      by_cases hmem : e.name ∈ h.claimed
      · -- the turn offers nothing but the component, and this is passed over
        have hturn : firsts before [e.offer] = [] :=
          Hoisted.firsts_cons_of_mem ((hbefore _).1 hmem) []
        have hnext (n : String) :
            n ∈ h.claimed ↔ n ∈ [e.offer].map (·.name) ++ before := by
          rw [hbefore, List.mem_append]
          refine (or_iff_right_of_imp fun hn => ?_).symm
          cases List.mem_singleton.1 hn
          exact (hbefore _).1 hmem
        obtain ⟨offers, hoffers, hall⟩ := ih hempty hnext
        refine ⟨[e.offer] ++ offers, .cons ?_ hoffers, ?_⟩
        · rw [hturn, List.flatMap_nil]
        · rw [define_taken hmem, Hoisted.firsts_append, hturn]
          exact hall
      · obtain ⟨given, h', hdrained, hrun⟩ := Definition.drain_eq c
          ⟨h.pending ++ hoists e.offer, e.name :: h.claimed⟩
        obtain ⟨queue, hqueue, hgiven⟩ := hdrained.history
        rw [hempty, List.nil_append] at hqueue
        have hfree : e.offer.name ∉ before := mt (hbefore _).2 hmem
        -- the turn is the component with the history of the queue behind it
        have hfirsts : firsts before (e.offer :: queue) = e.offer :: given := by
          rw [Hoisted.firsts_cons_of_not_mem hfree, hgiven]
          refine congrArg (e.offer :: ·) (Hoisted.firsts_congr (fun n => ?_) _)
          rw [List.mem_cons, List.mem_cons, hbefore]
          rfl
        have hturn : e.offer :: queue
            = e.offer :: (firsts before (e.offer :: queue)).flatMap hoists := by
          rw [hfirsts, List.flatMap_cons, ← hqueue]
        have hnext (n : String) : n ∈ h'.claimed
            ↔ n ∈ (e.offer :: queue).map (·.name) ++ before := by
          have hnames := Hoisted.mem_names_firsts before (e.offer :: queue) n
          rw [hfirsts] at hnames
          rw [List.mem_append, ← hnames, hdrained.claimed, List.mem_append,
            List.mem_reverse, List.map_cons, List.mem_cons, List.mem_cons,
            hbefore, or_left_comm, or_assoc]
          rfl
        obtain ⟨offers, hoffers, hall⟩ := ih hdrained.pending hnext
        refine ⟨(e.offer :: queue) ++ offers, .cons hturn hoffers, ?_⟩
        rw [define_free hmem, hrun, Hoisted.firsts_append, hfirsts]
        refine .cons (gives_of ..) (List.rel_append ?_ hall)
        refine List.forall₂_map_left_iff.2 (List.forall₂_same.2 fun p _ => ?_)
        exact gives_of p.name none p.shape

end TypesModule

end ApiForge
