import ApiForge.Proofs.Shape.Visits
/-!
A merge comes to an end, whatever its members refer to.

# The walk

`Document.merge` is given a budget that is never used up. Here a merge is a walk
without one, step by step as it is carried out: an agenda of what remains to be done,
and a stack of the pointers that are being followed, which a pointer enters in front
of its component's members and leaves behind them (`advance?`).

# Its end

The members of a schema are visited as `Document.Visits` says, and a walk does what
is visited (`walksTo_of_visits`). The visits of a schema end, so the walk does, and
there is only one way for it to go.

# Its stack

`Within` is kept by every step: the pointers on the stack are different, and are all
among those that stand as members in the document or in the schema that is merged. So
the stack is never deeper than there are such pointers (`merge_walk_ends`).
-/

namespace ApiForge

open Relation
open Hereditary
  (Written allOf_subset_children exists_of_mem_mergeSteps memberSteps mergeSteps_eq)

-- ================================================ statement vocabulary

/-- What remains to be done in a merge. -/
inductive Errand where
  /-- A member is taken in. -/
  | member (m : Schema)
  /-- What a schema declares itself is taken in. -/
  | own (s : Schema)
  /-- A pointer has been followed, and leaves the stack. -/
  | leave

/-- A merge on its way. -/
structure Walk where
  agenda : List Errand
  /-- The pointers that are being followed, the last one first. -/
  stack : List String := []
  /-- What has been declared. -/
  taken : List Declaration := []

/-- What there is to do for a schema: its members in order, and then itself. -/
def Schema.errands (s : Schema) : List Errand :=
  s.allOf.map .member ++ [.own s]

namespace Document

/-- The component that a pointer enters. It enters none when it is being followed
already, and when it names no component or one that is a reference. -/
def enter? (d : Document) (stack : List String) (p : String) : Option Schema :=
  if stack.contains p then none
  else
    match d.resolveSchema p with
    | .ok t => t.inline?
    | .error _ => none

/-- The next step of a walk; there is none when nothing remains to be done. -/
def advance? (d : Document) : Walk → Option Walk
  | ⟨[], _, _⟩ => none
  | ⟨.own s :: rest, stack, taken⟩ => some ⟨rest, stack, taken ++ [declared s]⟩
  | ⟨.leave :: rest, stack, taken⟩ => some ⟨rest, stack.tail, taken⟩
  | ⟨.member m :: rest, stack, taken⟩ =>
    match m.pointer with
    | none => some ⟨m.errands ++ rest, stack, taken⟩
    | some p =>
      match d.enter? stack p with
      | some t => some ⟨t.errands ++ .leave :: rest, p :: stack, taken⟩
      | none => some ⟨rest, stack, taken⟩

/-- A walk goes on to another by some steps. -/
abbrev WalksTo (d : Document) : Walk → Walk → Prop :=
  ReflTransGen fun w w' => d.advance? w = some w'

/-- The pointers that stand as members in a document or in a schema, each once. -/
def memberPointers (d : Document) (s : Schema) : List String :=
  ((d.nodes ++ s.nodes).flatMap fun t => t.allOf.filterMap (·.pointer)).eraseDups

-- ================================================================= steps

variable {d : Document} {s t m : Schema} {p : String} {w w' last : Walk}
  {path pool stack : List String} {members visited : List Schema}

/-- A pointer is entered when it is not on the stack and leads to a component
directly. -/
theorem enter?_eq_some_iff :
    d.enter? stack p = some t ↔ p ∉ stack ∧ d.Direct p t := by
  unfold enter? Direct
  by_cases hp : p ∈ stack
  · simp [hp]
  · cases hresolve : d.resolveSchema p with
    | error e => simp [hp]
    | ok u =>
        have hinline : u.inline? = some t ↔ u = t ∧ t.pointer = none := by
          unfold Schema.inline?
          cases hu : u.pointer with
          | none =>
              simp only [Option.some.injEq]
              exact ⟨fun h => ⟨h, h ▸ hu⟩, And.left⟩
          | some q =>
              simp only [reduceCtorEq, false_iff, not_and]
              rintro rfl
              rw [hu]
              exact Option.some_ne_none q
        simp [hp, hinline]

/-- A member in place puts its own errands on the agenda. -/
theorem advance?_member_inside (hp : m.pointer = none) (rest : List Errand)
    (taken : List Declaration) :
    d.advance? ⟨.member m :: rest, path, taken⟩
      = some ⟨m.errands ++ rest, path, taken⟩ := by
  rw [advance?, hp]

/-- A pointer to a component puts its errands on the agenda, and itself on the stack. -/
theorem advance?_member_behind (hp : m.pointer = some p) (hpath : p ∉ path)
    (ht : d.Direct p t) (rest : List Errand) (taken : List Declaration) :
    d.advance? ⟨.member m :: rest, path, taken⟩
      = some ⟨t.errands ++ .leave :: rest, p :: path, taken⟩ := by
  rw [advance?, hp]
  dsimp only
  rw [enter?_eq_some_iff.2 ⟨hpath, ht⟩]

/-- A pointer that is on the stack or leads nowhere is passed over. -/
theorem advance?_member_passed (hp : m.pointer = some p)
    (hpass : p ∈ path ∨ ∀ t, ¬ d.Direct p t) (rest : List Errand)
    (taken : List Declaration) :
    d.advance? ⟨.member m :: rest, path, taken⟩
      = some ⟨rest, path, taken⟩ := by
  have hnone : d.enter? path p = none := by
    rw [Option.eq_none_iff_forall_ne_some]
    intro t ht
    obtain ⟨hpath, hdirect⟩ := enter?_eq_some_iff.1 ht
    exact hpass.elim hpath fun hnone => hnone t hdirect
  rw [advance?, hp]
  dsimp only
  rw [hnone]

/-- What is visited for members is taken in, and the stack is then as it was. The
induction is on the visit. -/
theorem walksTo_of_visits (h : d.Visits path members visited)
    (rest : List Errand) (taken : List Declaration) :
    d.WalksTo ⟨members.map .member ++ rest, path, taken⟩
      ⟨rest, path, taken ++ visited.map declared⟩ := by
  induction h generalizing rest taken with
  | nil =>
      rw [List.map_nil, List.map_nil, List.append_nil]
      exact .refl
  | @inside path m members own others hp _ _ ihown ihothers =>
      have hmembers := ihown (.own m :: (members.map .member ++ rest)) taken
      have hothers := ihothers rest (taken ++ own.map declared ++ [declared m])
      rw [List.map_cons, List.cons_append]
      refine .head (advance?_member_inside hp _ _) ?_
      rw [Schema.errands, List.append_assoc, List.singleton_append]
      refine hmembers.trans (.head rfl ?_)
      simpa using hothers
  | @behind path m t p members own others hp hpath hdirect _ _ ihown ihothers =>
      have hmembers :=
        ihown (.own t :: .leave :: (members.map .member ++ rest)) taken
      have hothers := ihothers rest (taken ++ own.map declared ++ [declared t])
      rw [List.map_cons, List.cons_append]
      refine .head (advance?_member_behind hp hpath hdirect _ _) ?_
      rw [Schema.errands, List.append_assoc, List.singleton_append]
      refine hmembers.trans (.head rfl (.head rfl ?_))
      simpa using hothers
  | passed hp hpass _ ihothers =>
      rw [List.map_cons, List.cons_append]
      exact .head (advance?_member_passed hp hpass _ _) (ihothers rest taken)

/-- What there is to do for a schema is done to its end, and the stack is then as it
was. -/
theorem walksTo_of_errands (h : d.Visits path s.allOf visited)
    (rest : List Errand) (taken : List Declaration) :
    d.WalksTo ⟨s.errands ++ rest, path, taken⟩
      ⟨rest, path, taken ++ (visited ++ [s]).map declared⟩ := by
  have hmembers := walksTo_of_visits h (.own s :: rest) taken
  rw [Schema.errands, List.append_assoc, List.singleton_append]
  refine hmembers.tail ?_
  show some _ = some _
  rw [List.map_append, List.append_assoc]
  rfl

/-- There is one way for a walk to go on. -/
theorem walksTo_of_walksTo_end (hlast : d.WalksTo w last)
    (hend : d.advance? last = none) (h : d.WalksTo w w') : d.WalksTo w' last := by
  have hunique : Relator.RightUnique
      fun w w' => d.advance? w = some w' := by
    intro a b c hb hc
    exact Option.some.inj (hb.symm.trans hc)
  rcases ReflTransGen.total_of_right_unique hunique hlast h with hback | hback
  · rcases ReflTransGen.cases_head hback with rfl | ⟨next, hnext, -⟩
    · exact .refl
    · rw [hend] at hnext
      cases hnext
  · exact hback

-- ================================================================= stack

/-- A walk keeps within a list of pointers: the stack holds only such, none of them
twice, and the members on the agenda follow only such. -/
structure Within (pool : List String) (w : Walk) : Prop where
  nodup : w.stack.Nodup
  subset : w.stack ⊆ pool
  agenda : ∀ m, .member m ∈ w.agenda → FollowsIn pool (memberSteps m)

theorem member_mem_errands : .member m ∈ s.errands ↔ m ∈ s.allOf := by
  simp [Schema.errands]

/-- A merge follows what its members follow. -/
theorem followsIn_mergeSteps : FollowsIn pool s.mergeSteps
    ↔ ∀ m ∈ s.allOf, FollowsIn pool (memberSteps m) := by
  unfold FollowsIn
  rw [mergeSteps_eq]
  constructor
  · intro h m hm p hp
    exact h p (List.mem_append_left _ (List.mem_flatMap.2 ⟨m, hm, hp⟩))
  · intro h p hp
    rcases List.mem_append.1 hp with hp | hp
    · obtain ⟨m, hm, hp⟩ := List.mem_flatMap.1 hp
      exact h m hm p hp
    · cases List.mem_singleton.1 hp

/-- A walk starts within the pointers that the merge follows. -/
theorem within_start (hs : FollowsIn pool s.mergeSteps) :
    Within pool { agenda := s.errands } where
  nodup := List.nodup_nil
  subset := List.nil_subset _
  agenda m hm := followsIn_mergeSteps.1 hs m (member_mem_errands.1 hm)

/-- A walk keeps within what it and the component schemas follow. -/
theorem within_advance? (hpool : ∀ e ∈ d.schemas, FollowsIn pool e.2.mergeSteps)
    (h : Within pool w) (hstep : d.advance? w = some w') : Within pool w' := by
  obtain ⟨agenda, stack, taken⟩ := w
  obtain ⟨hnodup, hsubset, hagenda⟩ := h
  cases agenda with
  | nil => cases hstep
  | cons errand rest =>
      have hrest : ∀ m, .member m ∈ rest → FollowsIn pool (memberSteps m) :=
        fun m hm => hagenda m (List.mem_cons_of_mem _ hm)
      -- taking in and leaving only shorten; a member may bring in new errands
      cases errand with
      | own s =>
          cases hstep
          exact ⟨hnodup, hsubset, hrest⟩
      | leave =>
          cases hstep
          exact ⟨hnodup.tail, List.Subset.trans (List.tail_subset _) hsubset, hrest⟩
      | member m =>
          have hm := hagenda m (List.mem_cons_self ..)
          cases hp : m.pointer with
          | none =>
              rw [advance?_member_inside hp] at hstep
              cases hstep
              refine ⟨hnodup, hsubset, fun n hn => ?_⟩
              rcases List.mem_append.1 hn with hn | hn
              · rw [memberSteps, hp] at hm
                exact followsIn_mergeSteps.1 hm n (member_mem_errands.1 hn)
              · exact hrest n hn
          | some p =>
              by_cases hpass : p ∈ stack ∨ ∀ t, ¬ d.Direct p t
              · rw [advance?_member_passed hp hpass] at hstep
                cases hstep
                exact ⟨hnodup, hsubset, hrest⟩
              · obtain ⟨hfresh, hdirect⟩ := not_or.1 hpass
                obtain ⟨t, ht⟩ := not_forall_not.1 hdirect
                rw [advance?_member_behind hp hfresh ht] at hstep
                cases hstep
                obtain ⟨a, ha⟩ := resolveSchema_eq_ok_iff.1 ht.1
                have htarget := hpool (a.name, t) ha.holds
                rw [memberSteps, hp] at hm
                refine ⟨List.nodup_cons.2 ⟨hfresh, hnodup⟩,
                  List.cons_subset.2 ⟨hm p (List.mem_singleton_self _), hsubset⟩,
                  fun n hn => ?_⟩
                rcases List.mem_append.1 hn with hn | hn
                · exact followsIn_mergeSteps.1 htarget n (member_mem_errands.1 hn)
                · rcases List.mem_cons.1 hn with hn | hn
                  · cases hn
                  · exact hrest n hn

/-- A walk that begins with a schema keeps within what is followed. -/
theorem within_of_walksTo
    (hpool : ∀ e ∈ d.schemas, FollowsIn pool e.2.mergeSteps)
    (hs : FollowsIn pool s.mergeSteps)
    (h : d.WalksTo { agenda := s.errands } w) : Within pool w := by
  induction h with
  | refl => exact within_start hs
  | tail _ hstep ih => exact within_advance? hpool ih hstep

-- ============================================================== pointers

/-- Members that are written in place stand inside the schema. -/
theorem mem_nodes_of_written (h : ReflTransGen Written s t) : t ∈ s.nodes := by
  induction h with
  | refl => exact Schema.mem_nodes_self s
  | tail _ hm ih =>
      exact Schema.children_mem_nodes ih (allOf_subset_children _ hm.1)

/-- A merge follows pointers of members inside the schema. -/
theorem followsIn_memberPointers {start : Schema}
    (hs : s.nodes ⊆ d.nodes ++ start.nodes) :
    FollowsIn (d.memberPointers start) s.mergeSteps := by
  intro p hp
  obtain ⟨t, ht, hstep | ⟨m, hm, q, hq, hstep⟩⟩ := exists_of_mem_mergeSteps hp
  · cases hstep
  · cases hstep
    rw [memberPointers, List.mem_eraseDups]
    exact List.mem_flatMap.2 ⟨t, hs (mem_nodes_of_written ht),
      List.mem_filterMap.2 ⟨m, hm, hq⟩⟩

/-- The schemas inside of a component schema are schemas of the document. -/
theorem nodes_subset_of_mem {e : String × Schema} (he : e ∈ d.schemas) :
    e.2.nodes ⊆ d.nodes := by
  have hroot : e.2 ∈ d.roots := by
    unfold schemas shared at he
    unfold roots
    cases hcomponents : d.components with
    | none =>
        rw [hcomponents] at he
        exact absurd he List.not_mem_nil
    | some c =>
        rw [hcomponents] at he
        have hc : e.2 ∈ c.schemas.map (·.2) := List.mem_map_of_mem he
        simp [Components.roots, hc]
  exact fun t ht => List.mem_flatMap.2 ⟨e.2, hroot, ht⟩

-- ========================================================= main result

/-- A walk that comes to an end does not go on forever. -/
theorem not_endless (h : d.WalksTo w last) (hend : d.advance? last = none)
    {f : Nat → Walk} (hf : f 0 = w) :
    ¬ ∀ n, d.advance? (f n) = some (f (n + 1)) := by
  intro hsteps
  induction h using ReflTransGen.head_induction_on generalizing f with
  | refl =>
      have hstep := hsteps 0
      rw [hf, hend] at hstep
      cases hstep
  | head hstep _ ih =>
      have hfirst := hsteps 0
      rw [hf, hstep] at hfirst
      exact ih (f := fun n => f (n + 1)) (Option.some.inj hfirst).symm
        fun n => hsteps (n + 1)

/-- Merging ends, whatever the members of a document refer to. No walk goes on
forever; from wherever it has come, it goes on to the one end at which nothing
remains to be done, the stack is empty as it was at the start, and what has been
taken in is what the merge declares. On the way the stack holds no pointer twice, and
never more than there are different pointers among the members in the document and
in the schema. And from where a schema is to be taken in, the walk comes to where
this is done, with the stack as it was. -/
theorem merge_walk_ends (d : Document) (s : Schema) :
    (∀ f : Nat → Walk, f 0 = { agenda := s.errands } →
        ¬ ∀ n, d.advance? (f n) = some (f (n + 1)))
      ∧ d.advance? ⟨[], [], d.merge s⟩ = none
      ∧ ∀ w, d.WalksTo { agenda := s.errands } w →
          d.WalksTo w ⟨[], [], d.merge s⟩
            ∧ w.stack.Nodup
            ∧ w.stack.length ≤ (d.memberPointers s).length
            ∧ ∀ (t : Schema) (rest : List Errand), w.agenda = t.errands ++ rest →
                ∃ taken, d.WalksTo w ⟨rest, w.stack, w.taken ++ taken⟩ := by
  have hpool : ∀ e ∈ d.schemas,
      FollowsIn (d.memberPointers s) e.2.mergeSteps := fun e he =>
    followsIn_memberPointers fun t ht =>
      List.mem_append_left _ (nodes_subset_of_mem he ht)
  have hs : FollowsIn (d.memberPointers s) s.mergeSteps :=
    followsIn_memberPointers fun t ht => List.mem_append_right _ ht
  have hend : d.advance? ⟨[], [], d.merge s⟩ = none := rfl
  have hwhole : d.WalksTo { agenda := s.errands } ⟨[], [], d.merge s⟩ := by
    obtain ⟨visited, hvisits, hmerge⟩ := exists_visits_merge d s
    have hwalk := walksTo_of_errands hvisits [] []
    rw [List.append_nil, List.nil_append, ← hmerge] at hwalk
    exact hwalk
  refine ⟨fun f hf => not_endless hwhole hend hf, hend, fun w hw => ?_⟩
  have hwithin := within_of_walksTo hpool hs hw
  refine ⟨walksTo_of_walksTo_end hwhole hend hw, hwithin.nodup, ?_, ?_⟩
  · exact (List.subperm_of_subset hwithin.nodup hwithin.subset).length_le
  · intro t rest hagenda
    have ht : FollowsIn (d.memberPointers s) t.mergeSteps := by
      refine followsIn_mergeSteps.2 fun m hm => hwithin.agenda m ?_
      rw [hagenda]
      exact List.mem_append_left _ (member_mem_errands.2 hm)
    obtain ⟨visited, hvisits, -⟩ := exists_visits hpool ht hwithin.nodup
      hwithin.subset (Nat.le_add_right _ _)
    obtain ⟨agenda, stack, taken⟩ := w
    cases hagenda
    exact ⟨_, walksTo_of_errands hvisits rest taken⟩

end Document

end ApiForge
