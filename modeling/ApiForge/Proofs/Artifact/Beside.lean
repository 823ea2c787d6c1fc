import ApiForge.Proofs.Artifact.Carried
/-!
Definitions beside one another.

The types of a document are written in turns that share a queue and a list of
the names that are given. A turn leaves the queue empty, so it tells a later one
only which names are given; and a later one asks this only of names that it then
gives itself, if they are free. So the names that have been given make no
difference where they are none of those that are known in the end
(`drain_apart`, `define_apart`).

This is used twice for a component schema more: the new turn comes out as if
there were no others, and those behind it come out as if it had not been
(`definitions_insert`).
-/

namespace ApiForge

open Hoist (Queues Drained)
open Hoisted (firsts hoists Scoped)

variable {c c' : Catalog} {T : String → Prop} {s s' : Hoist}
  {extra : String → Prop}

-- =============================================================== one queue

/-- Names that are offered to nothing make no difference to which offers are
the first. -/
theorem Hoisted.firsts_apart {taken taken' : List String} {l : List Hoisted}
    (htaken : ∀ n, n ∈ taken' ↔ n ∈ taken ∨ extra n)
    (hapart : ∀ p ∈ l, ¬ extra p.name) : firsts taken' l = firsts taken l := by
  induction l generalizing taken taken' with
  | nil => rfl
  | cons p rest ih =>
      have hp : p.name ∈ taken' ↔ p.name ∈ taken := by
        rw [htaken]
        exact or_iff_left (hapart p (List.mem_cons_self ..))
      have hrest := fun q hq => hapart q (List.mem_cons_of_mem _ hq)
      by_cases hmem : p.name ∈ taken
      · rw [firsts_cons_of_mem hmem, firsts_cons_of_mem (hp.2 hmem),
          ih htaken hrest]
      · rw [firsts_cons_of_not_mem hmem, firsts_cons_of_not_mem (mt hp.1 hmem)]
        refine congrArg (p :: ·) (ih (fun n => ?_) hrest)
        rw [List.mem_cons, List.mem_cons, htaken, or_assoc]

/-- All names in the history of a queue are known when it has been worked
through. -/
theorem Hoist.Drained.mem_claimed {h h' : Hoist} {given queue : List Hoisted}
    (hd : Drained h given h') (hgiven : given = firsts h.claimed queue)
    {p : Hoisted} (hp : p ∈ queue) : p.name ∈ h'.claimed := by
  have hnames := Hoisted.mem_names_firsts h.claimed queue p.name
  rw [hd.claimed, List.mem_append, List.mem_reverse, hgiven]
  exact hnames.2 (.inl (List.mem_map_of_mem hp))

namespace Definition

/-- What a queue defines does not depend on names that are given besides. -/
theorem drain_apart (hpending : s'.pending = s.pending)
    (hclaimed : ∀ n, n ∈ s'.claimed ↔ n ∈ s.claimed ∨ extra n)
    (hapart : ∀ n ∈ (drain c s).2.claimed, ¬ extra n) :
    (drain c s').1 = (drain c s).1
      ∧ ∀ n, n ∈ (drain c s').2.claimed
          ↔ n ∈ (drain c s).2.claimed ∨ extra n := by
  obtain ⟨given, h, hdrained, hrun⟩ := drain_eq c s
  obtain ⟨given', h', hdrained', hrun'⟩ := drain_eq c s'
  obtain ⟨queue, hqueue, hgiven⟩ := hdrained.history
  obtain ⟨queue', hqueue', hgiven'⟩ := hdrained'.history
  rw [hrun] at hapart
  -- the history of the one queue is a history of the other
  have hfirsts : firsts s'.claimed queue = firsts s.claimed queue :=
    Hoisted.firsts_apart hclaimed fun p hp =>
      hapart p.name (hdrained.mem_claimed hgiven hp)
  have hsame : queue' = queue := by
    rw [hgiven'] at hqueue'
    refine Hoisted.history_unique hqueue' ?_
    rw [hfirsts, hpending, ← hgiven]
    exact hqueue
  have hnames : given' = given := by
    rw [hgiven', hsame, hfirsts, ← hgiven]
  rw [hrun, hrun', hnames]
  refine ⟨rfl, fun n => ?_⟩
  rw [hdrained.claimed, hdrained'.claimed, hnames, List.mem_append,
    List.mem_append, hclaimed, or_assoc]

end Definition

-- =================================================================== turns

namespace TypesModule

/-- What is queued, and which names are given, when a component is defined. -/
def opened (e : CatalogEntry) (s : Hoist) : Hoist :=
  ⟨s.pending ++ hoists e.offer, e.name :: s.claimed⟩

/-- A turn defines the component, and works through the queue. -/
theorem define_turn {e : CatalogEntry} (hfree : e.name ∉ s.claimed)
    (rest : List CatalogEntry) :
    define c (e :: rest) s
      = (Definition.of c e.name e.schema.ownDescription e.shape
            :: (Definition.drain c (opened e s)).1
          ++ (define c rest (Definition.drain c (opened e s)).2).1,
          (define c rest (Definition.drain c (opened e s)).2).2) :=
  define_free hfree rest

/-- Working through a queue leaves it empty, and adds to the names that are
given those that are defined. -/
theorem drain_leaves (c : Catalog) (s : Hoist) :
    (Definition.drain c s).2.pending = []
      ∧ ∀ n, n ∈ (Definition.drain c s).2.claimed
          ↔ n ∈ (Definition.drain c s).1.map (·.name) ∨ n ∈ s.claimed := by
  obtain ⟨given, h, hdrained, hrun⟩ := Definition.drain_eq c s
  have hgiven : (given.map fun p =>
      Definition.of c p.name none p.shape).map (·.name)
        = given.map (·.name) := by
    rw [List.map_map]
    exact List.map_congr_left fun p _ => (gives_of p.name none p.shape).1
  rw [hrun]
  refine ⟨hdrained.pending, fun n => ?_⟩
  rw [hdrained.claimed, hgiven, List.mem_append, List.mem_reverse]

/-- So do the turns of some entries. -/
theorem define_leaves (c : Catalog) (es : List CatalogEntry)
    (hs : s.pending = []) :
    (define c es s).2.pending = []
      ∧ ∀ n, n ∈ (define c es s).2.claimed
          ↔ n ∈ (define c es s).1.map (·.name) ∨ n ∈ s.claimed := by
  induction es generalizing s with
  | nil => exact ⟨hs, fun n => (or_iff_right List.not_mem_nil).symm⟩
  | cons e es ih =>
      by_cases hmem : e.name ∈ s.claimed
      · rw [define_taken hmem]
        exact ih hs
      · obtain ⟨hdrained, hqueue⟩ := drain_leaves c (opened e s)
        obtain ⟨hempty, hnames⟩ := ih hdrained
        have hhead : (Definition.of c e.name e.schema.ownDescription
            e.shape).name = e.name := (gives_of ..).1
        rw [define_turn hmem]
        refine ⟨hempty, fun n => (hnames n).trans ?_⟩
        rw [hqueue, opened, List.cons_append, List.map_cons, List.map_append,
          hhead]
        simp only [List.mem_append, List.mem_cons]
        tauto

/-- The turns of entries come one after the other. -/
theorem define_append (c : Catalog) (es more : List CatalogEntry) (s : Hoist) :
    define c (es ++ more) s
      = ((define c es s).1 ++ (define c more (define c es s).2).1,
          (define c more (define c es s).2).2) := by
  induction es generalizing s with
  | nil => rfl
  | cons e es ih =>
      rw [List.cons_append]
      by_cases hmem : e.name ∈ s.claimed
      · rw [define_taken hmem, define_taken hmem, ih]
      · rw [define_turn hmem, define_turn hmem, ih]
        simp only [List.cons_append, List.append_assoc]

/-- Catalogs that agree on what the entries mention define the same. -/
theorem define_agree (h : Catalog.AgreeOn T c c') {es : List CatalogEntry}
    (hT : ∀ e ∈ es, ∀ n ∈ e.shape.names, T n) (hs : s.pending = []) :
    define c' es s = define c es s := by
  induction es generalizing s with
  | nil => rfl
  | cons e es ih =>
      have hrest := fun x hx => hT x (List.mem_cons_of_mem _ hx)
      have hshape := hT e (List.mem_cons_self ..)
      by_cases hmem : e.name ∈ s.claimed
      · rw [define_taken hmem, define_taken hmem, ih hrest hs]
      · have hqueue : (opened e s).Queues (Scoped T) := by
          intro q hq
          rw [opened, hs] at hq
          exact Hoisted.passes_scoped T e.offer hshape q hq
        rw [define_turn hmem, define_turn hmem, Definition.drain_agree h hqueue,
          ih hrest (drain_leaves c (opened e s)).1, Definition.of_agree h hshape]

variable (extra) in
/-- What the turns of some entries define does not depend on names that are
given besides. -/
theorem define_apart {es : List CatalogEntry} (hs : s.pending = [])
    (hs' : s'.pending = [])
    (hclaimed : ∀ n, n ∈ s'.claimed ↔ n ∈ s.claimed ∨ extra n)
    (hapart : ∀ n ∈ (define c es s).2.claimed, ¬ extra n) :
    (define c es s').1 = (define c es s).1 := by
  induction es generalizing s s' with
  | nil => rfl
  | cons e es ih =>
      by_cases hmem : e.name ∈ s.claimed
      · rw [define_taken hmem] at hapart ⊢
        rw [define_taken ((hclaimed _).2 (.inl hmem))]
        exact ih hs hs' hclaimed hapart
      · rw [define_turn hmem] at hapart
        obtain ⟨hempty, hqueue⟩ := drain_leaves c (opened e s)
        have hlater := (define_leaves c es hempty).2
        -- what is known during the turn is known in the end
        have hdrained : ∀ n ∈ (Definition.drain c (opened e s)).2.claimed,
            ¬ extra n := fun n hn => hapart n ((hlater n).2 (.inr hn))
        have hname : ¬ extra e.name :=
          hdrained _ ((hqueue _).2 (.inr (List.mem_cons_self ..)))
        have hfree : e.name ∉ s'.claimed := by
          rw [hclaimed]
          exact not_or.2 ⟨hmem, hname⟩
        have hopened (n : String) : n ∈ (opened e s').claimed
            ↔ n ∈ (opened e s).claimed ∨ extra n := by
          rw [opened, opened, List.mem_cons, List.mem_cons, hclaimed, or_assoc]
        have hpending : (opened e s').pending = (opened e s).pending := by
          rw [opened, opened, hs, hs']
        obtain ⟨hdefines, hnames⟩ :=
          Definition.drain_apart hpending hopened hdrained
        rw [define_turn hmem, define_turn hfree]
        dsimp only
        rw [hdefines, ih hempty (drain_leaves c (opened e s')).1 hnames hapart]

end TypesModule

-- ========================================================== one turn more

/-- A name is that of a component, or is offered to what is hoisted while its
definition is written, and the definitions of what is hoisted. -/
def CatalogEntry.Introduces (e : CatalogEntry) (n : String) : Prop :=
  ∃ offers, Offered [] [e] offers ∧ ∃ o ∈ offers, o.name = n

namespace TypesModule

/-- What one component defines when there are no others. -/
def own (c : Catalog) (e : CatalogEntry) : List Definition :=
  ((define c [e]).run {}).1

/-- It defines the names that it introduces. -/
theorem mem_names_own (c : Catalog) (e : CatalogEntry) (n : String) :
    n ∈ (own c e).map (·.name) ↔ e.Introduces n := by
  obtain ⟨offers, hoffers, hall⟩ : ∃ offers, Offered [] [e] offers
      ∧ List.Forall₂ (Gives c) (own c e) (firsts [] offers) :=
    define_eq c [e] rfl fun _ => Iff.rfl
  have hnames : (own c e).map (·.name) = (firsts [] offers).map (·.name) := by
    rw [← List.forall₂_eq_eq_eq, List.forall₂_map_left_iff,
      List.forall₂_map_right_iff]
    exact hall.imp fun d o hgives => hgives.1
  have hmem := Hoisted.mem_names_firsts [] offers n
  simp only [List.not_mem_nil, or_false] at hmem
  rw [hnames, hmem, List.mem_map]
  refine ⟨fun h => ⟨offers, hoffers, h⟩, ?_⟩
  rintro ⟨offers', hoffers', h⟩
  rw [hoffers.unique hoffers']
  exact h

/-- One of the names is that of the component. -/
theorem introduces_name (c : Catalog) (e : CatalogEntry) :
    e.Introduces e.name := by
  have hhead : (Definition.of c e.name e.schema.ownDescription
      e.shape).name = e.name := (gives_of ..).1
  rw [← mem_names_own c]
  show e.name ∈ (define c [e] {}).1.map (·.name)
  rw [define_turn List.not_mem_nil, List.cons_append, List.map_cons, hhead]
  exact List.mem_cons_self ..

/-- One entry more adds what it defines by itself, in one place, and leaves the
other definitions as they are: if the catalogs agree on what the others
mention, and the entry introduces none of the names that the others define. -/
theorem definitions_insert (h : Catalog.AgreeOn T c c')
    {front back : List CatalogEntry} {e : CatalogEntry}
    (hc : c.entries = front ++ back) (hc' : c'.entries = front ++ e :: back)
    (hT : ∀ x ∈ c.entries, ∀ n ∈ x.shape.names, T n)
    (hapart : ∀ n ∈ names c, ¬ e.Introduces n) :
    ∃ before behind, definitions c = before ++ behind
      ∧ definitions c' = before ++ own c' e ++ behind := by
  rw [hc] at hT
  have hfront := fun x hx => hT x (List.mem_append_left back hx)
  have hback := fun x hx => hT x (List.mem_append_right front hx)
  -- the state after the turns before the new one
  let mid : Hoist := (define c front {}).2
  obtain ⟨hmid, hgiven⟩ : mid.pending = [] ∧ ∀ n, n ∈ mid.claimed
      ↔ n ∈ (define c front {}).1.map (·.name) ∨ n ∈ [] :=
    define_leaves c front rfl
  obtain ⟨hafter, hown⟩ := define_leaves c' [e] hmid
  have hsame : define c' front {} = define c front {} :=
    define_agree h hfront rfl
  have hrest : define c' back mid = define c back mid :=
    define_agree h hback hmid
  have hdefinitions : definitions c
      = (define c front {}).1 ++ (define c back mid).1 := by
    show (define c c.entries {}).1 = _
    rw [hc, define_append]
  -- names that are known at some time are defined in the end
  have hknown {n : String} (hn : n ∈ (define c back mid).2.claimed) :
      n ∈ names c := by
    rw [names, hdefinitions, List.map_append, List.mem_append, or_comm]
    refine ((define_leaves c back hmid).2 n).1 hn |>.imp_right fun hn => ?_
    exact ((hgiven n).1 hn).resolve_right List.not_mem_nil
  have hbefore {n : String} (hn : n ∈ mid.claimed) : ¬ e.Introduces n :=
    hapart n (hknown (((define_leaves c back hmid).2 n).2 (.inr hn)))
  have hturn : (define c' [e] mid).1 = own c' e := by
    refine define_apart (· ∈ mid.claimed) rfl hmid
      (fun n => (or_iff_right List.not_mem_nil).symm) fun n hn hgiven => ?_
    have hnames := ((define_leaves c' [e] (s := {}) rfl).2 n).1 hn
    exact hbefore hgiven ((mem_names_own c' e n).1
      (hnames.resolve_right List.not_mem_nil))
  have hlater : (define c' back (define c' [e] mid).2).1
      = (define c' back mid).1 := by
    refine define_apart e.Introduces hmid hafter (fun n => ?_) ?_
    · rw [hown, hturn, mem_names_own, or_comm]
    · rw [hrest]
      exact fun n hn => hapart n (hknown hn)
  refine ⟨(define c front {}).1, (define c back mid).1, hdefinitions, ?_⟩
  show (define c' c'.entries {}).1 = _
  rw [hc', define_append, ← List.singleton_append, define_append, hsame, hturn,
    hlater, hrest, List.append_assoc]

end TypesModule

end ApiForge
