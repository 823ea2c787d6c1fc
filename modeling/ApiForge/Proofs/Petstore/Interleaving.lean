import ApiForge.Proofs.Petstore.Shelf
import Mathlib.Data.List.Nodup
import Mathlib.Logic.Function.Basic
/-!
Calls of one store side by side. To add a pet takes a call two steps, one that
takes a number and one that places the pet; every other call takes one step.
Steps of different calls may follow one another in any order.

# The system

`Task.begin` is the first step of a call. What it leaves to be done is kept in
the phase of the call: nothing, or a pet to be placed under its number. The
operations of the store are the calls that nobody interrupts (`begin_create`,
`begin_insert`).

# The invariant

Numbers are given out once, because the counter only grows, and a number is
used at most once, because a call that has placed its pet is done. `Sound`
says this of a trace and the system behind it: numbers in the trace are
different from each other and up to the counter, a number that a call holds
has not been placed yet, and what is stored has been placed. Everything that
is said about pets follows.
-/

namespace ApiForge.Petstore.Interleaving

open ApiForge.Calendar (Timestamp)

-- ================================================ statement vocabulary

/-- A call of the store. -/
inductive Task where
  | insert (name : String) (status : Status)
  | create (new : NewPet)
  | list (limit : Option Int) (status : Option Status)
  | fetch (id : Int)
  | delete (id : Int)

/-- How far a call has come. -/
inductive Phase where
  | waiting (task : Task)
  /-- A number is taken, and the pet is still to be placed under it. -/
  | numbered (id : Int) (p : Pet)
  | done

/-- What a step does. -/
inductive Event where
  | numbered (id : Int)
  | placed (id : Int) (p : Pet)
  | listed (pets : List Pet)
  | fetched (id : Int) (p : Option Pet)
  | deleted (id : Int) (found : Bool)
  /-- The store is out of order. -/
  | refused

/-- The first step of a call: what it does, what it leaves to be done, and the
store behind it. -/
def Task.begin (now : Timestamp) (s : Store) : Task → Event × Phase × Store
  | .insert name status =>
      let (id, s) := s.allocate
      (.numbered id, .numbered id { id, name, status := some status }, s)
  | .create new =>
      if s.failing then (.refused, .done, s)
      else
        let (id, s) := s.allocate
        (.numbered id, .numbered id (Store.enrol now id new), s)
  | .list limit status =>
      if s.failing then (.refused, .done, s)
      else (.listed (s.list limit status), .done, s)
  | .fetch id =>
      if s.failing then (.refused, .done, s)
      else (.fetched id (s.pets.get? id), .done, s)
  | .delete id =>
      if s.failing then (.refused, .done, s)
      else (.deleted id (s.delete id).1, .done, (s.delete id).2)

/-- A store and the calls of it. -/
structure System (ι : Type) where
  store : Store
  calls : ι → Phase

variable {ι : Type} [DecidableEq ι]

/-- One step of one call. -/
inductive Step (σ : System ι) (i : ι) : Event → System ι → Prop where
  | begin (now : Timestamp) (task : Task) (hcall : σ.calls i = .waiting task) :
      Step σ i (task.begin now σ.store).1
        { store := (task.begin now σ.store).2.2,
          calls := Function.update σ.calls i (task.begin now σ.store).2.1 }
  | place (id : Int) (p : Pet) (hcall : σ.calls i = .numbered id p) :
      Step σ i (.placed id p)
        { store := σ.store.place id p,
          calls := Function.update σ.calls i .done }

/-- Steps one after another, with the calls that take them. -/
inductive Run : System ι → List (ι × Event) → System ι → Prop where
  | nil (σ : System ι) : Run σ [] σ
  | cons {σ σ' σ'' : System ι} {i : ι} {e : Event} {rest : List (ι × Event)}
      (hstep : Step σ i e σ') (hrest : Run σ' rest σ'') :
      Run σ ((i, e) :: rest) σ''

/-- The number that an event gives out. -/
def Event.number? : Event → Option Int
  | .numbered id => some id
  | _ => none

/-- The number under which an event places a pet. -/
def Event.place? : Event → Option Int
  | .placed id _ => some id
  | _ => none

/-- The numbers that a trace gives out, in order. -/
def numbers (trace : List (ι × Event)) : List Int :=
  trace.filterMap fun x => x.2.number?

/-- The numbers under which a trace places pets, in order. -/
def places (trace : List (ι × Event)) : List Int :=
  trace.filterMap fun x => x.2.place?

/-- A new store, and calls that have not begun. -/
def fresh (failing : Bool) (tasks : ι → Task) : System ι where
  store := { failing }
  calls := fun i => .waiting (tasks i)

-- ================================================ calls on their own

/-- A creation that nobody interrupts is the operation of the store. -/
theorem begin_create (now : Timestamp) (new : NewPet) {s : Store}
    (hs : s.failing = false) :
    ∃ id s', Task.begin now s (.create new)
        = (.numbered id, .numbered id (s.create now new).1, s')
      ∧ s'.place id (s.create now new).1 = (s.create now new).2 := by
  refine ⟨s.allocate.1, s.allocate.2, ?_, rfl⟩
  rw [Task.begin, hs]
  rfl

/-- An insertion that nobody interrupts is the operation of the store. -/
theorem begin_insert (now : Timestamp) (name : String) (status : Status)
    (s : Store) :
    ∃ id p s', Task.begin now s (.insert name status)
        = (.numbered id, .numbered id p, s')
      ∧ (id, s'.place id p) = s.insert name status :=
  ⟨_, _, _, rfl, rfl⟩

-- ========================================================== inversion

/-- An event is one that only reads. -/
def Event.Reads : Event → Prop
  | .listed _ | .fetched _ _ | .refused => True
  | _ => False

variable {σ σ' start : System ι} {i : ι} {e : Event} {trace : List (ι × Event)}

/-- What a step can do: it takes the next number, places a pet, takes a pet
away, or reads. -/
theorem Step.cases (h : Step σ i e σ') :
    (∃ p, e = .numbered (σ.store.counter + 1) ∧ p.id = σ.store.counter + 1
        ∧ σ' = { store := { σ.store with counter := σ.store.counter + 1 },
                 calls := Function.update σ.calls i
                   (.numbered (σ.store.counter + 1) p) })
      ∨ (∃ id p, e = .placed id p ∧ σ.calls i = .numbered id p
        ∧ σ' = { store := σ.store.place id p,
                 calls := Function.update σ.calls i .done })
      ∨ (∃ id, e = .deleted id (σ.store.pets.get? id).isSome
        ∧ σ' = { store := { σ.store with pets := σ.store.pets.erase id },
                 calls := Function.update σ.calls i .done })
      ∨ (e.Reads ∧ σ' = { store := σ.store,
                          calls := Function.update σ.calls i .done }) := by
  cases h with
  | place id p hcall => exact Or.inr (Or.inl ⟨id, p, rfl, hcall, rfl⟩)
  | begin now task hcall =>
      -- a store that fails makes every call a mere reading
      cases task with
      | insert name status => exact Or.inl ⟨_, rfl, rfl, rfl⟩
      | create new =>
          by_cases hs : σ.store.failing = true
          · refine Or.inr (Or.inr (Or.inr ?_))
            simp [Task.begin, hs, Event.Reads]
          · refine Or.inl ⟨Store.enrol now (σ.store.counter + 1) new, ?_, rfl, ?_⟩
            · simp [Task.begin, hs, Store.allocate]
            · simp [Task.begin, hs, Store.allocate]
      | list limit status =>
          refine Or.inr (Or.inr (Or.inr ?_))
          by_cases hs : σ.store.failing = true <;>
            simp [Task.begin, hs, Event.Reads]
      | fetch id =>
          refine Or.inr (Or.inr (Or.inr ?_))
          by_cases hs : σ.store.failing = true <;>
            simp [Task.begin, hs, Event.Reads]
      | delete id =>
          by_cases hs : σ.store.failing = true
          · refine Or.inr (Or.inr (Or.inr ?_))
            simp [Task.begin, hs, Event.Reads]
          · refine Or.inr (Or.inr (Or.inl ⟨id, ?_, ?_⟩))
            · simp [Task.begin, hs, Store.delete]
            · simp [Task.begin, hs, Store.delete]

-- ========================================================== invariant

omit [DecidableEq ι] in
theorem numbers_snoc (trace : List (ι × Event)) (i : ι) (e : Event) :
    numbers (trace ++ [(i, e)]) = numbers trace ++ e.number?.toList := by
  cases h : e.number? <;> simp [numbers, h]

omit [DecidableEq ι] in
theorem places_snoc (trace : List (ι × Event)) (i : ι) (e : Event) :
    places (trace ++ [(i, e)]) = places trace ++ e.place?.toList := by
  cases h : e.place? <;> simp [places, h]

theorem Event.Reads.silent (h : e.Reads) : e.number? = none ∧ e.place? = none := by
  cases e <;> first | exact ⟨rfl, rfl⟩ | cases h

/-- What holds of a system behind a trace. -/
structure Sound (trace : List (ι × Event)) (σ : System ι) : Prop where
  counter : 0 ≤ σ.store.counter
  /-- Numbers are given out from one up to the counter. -/
  bounds : ∀ id ∈ numbers trace, 1 ≤ id ∧ id ≤ σ.store.counter
  once : (numbers trace).Nodup
  /-- A pet that is still to be placed has its number to itself. -/
  held : ∀ i id p, σ.calls i = .numbered id p →
    p.id = id ∧ id ∈ numbers trace ∧ id ∉ places trace
  apart : ∀ i j id p q, σ.calls i = .numbered id p →
    σ.calls j = .numbered id q → i = j
  placed : ∀ id ∈ places trace, id ∈ numbers trace
  placedOnce : (places trace).Nodup
  stored : ∀ x ∈ σ.store.pets, x.2.id = x.1 ∧ x.1 ∈ places trace

namespace Sound

omit [DecidableEq ι] in
/-- The invariant holds of a new store. -/
theorem initially (failing : Bool) (tasks : ι → Task) :
    Sound [] (fresh failing tasks) where
  counter := Int.le_refl 0
  bounds := fun _ h => absurd h List.not_mem_nil
  once := List.nodup_nil
  held := fun _ _ _ h => nomatch h
  apart := fun _ _ _ _ _ h => nomatch h
  placed := fun _ h => absurd h List.not_mem_nil
  placedOnce := List.nodup_nil
  stored := fun _ h => absurd h List.not_mem_nil

omit [DecidableEq ι] in
/-- Nothing is stored under a number that a call still holds. -/
theorem free (h : Sound trace σ) {id : Int} {p : Pet}
    (hcall : σ.calls i = .numbered id p) : σ.store.pets.get? id = none := by
  obtain ⟨-, -, hnot⟩ := h.held i id p hcall
  refine Shelf.get?_eq_none fun x hx heq => hnot ?_
  exact heq ▸ (h.stored x hx).2

/-- A call that is done holds nothing. -/
theorem held_done {j : ι} {id : Int} {p : Pet}
    (h : Function.update σ.calls i .done j = .numbered id p) :
    j ≠ i ∧ σ.calls j = .numbered id p := by
  by_cases hj : j = i
  · subst hj
    rw [Function.update_self] at h
    cases h
  · rw [Function.update_of_ne hj] at h
    exact ⟨hj, h⟩

/-- A number is held by the call that takes it, and by those that held one. -/
theorem held_numbered {j : ι} {id id' : Int} {p q : Pet}
    (h : Function.update σ.calls i (.numbered id p) j = .numbered id' q) :
    (j = i ∧ id' = id ∧ q = p) ∨ (j ≠ i ∧ σ.calls j = .numbered id' q) := by
  by_cases hj : j = i
  · subst hj
    rw [Function.update_self] at h
    cases h
    exact Or.inl ⟨rfl, rfl, rfl⟩
  · rw [Function.update_of_ne hj] at h
    exact Or.inr ⟨hj, h⟩

/-- A step that neither gives a number out nor places a pet keeps the
invariant if it puts nothing new into the store. -/
theorem silent (h : Sound trace σ) {s : Store} (i : ι)
    (he : e.number? = none ∧ e.place? = none)
    (hcounter : s.counter = σ.store.counter)
    (hpets : ∀ x ∈ s.pets, x ∈ σ.store.pets) :
    Sound (trace ++ [(i, e)])
      { store := s, calls := Function.update σ.calls i .done } := by
  have hnumbers : numbers (trace ++ [(i, e)]) = numbers trace := by
    rw [numbers_snoc, he.1]
    exact List.append_nil _
  have hplaces : places (trace ++ [(i, e)]) = places trace := by
    rw [places_snoc, he.2]
    exact List.append_nil _
  constructor
  · exact hcounter ▸ h.counter
  · rw [hnumbers, hcounter]
    exact h.bounds
  · rw [hnumbers]
    exact h.once
  · intro j id p hj
    rw [hnumbers, hplaces]
    exact h.held j id p (held_done hj).2
  · intro j k id p q hj hk
    exact h.apart j k id p q (held_done hj).2 (held_done hk).2
  · rw [hnumbers, hplaces]
    exact h.placed
  · rw [hplaces]
    exact h.placedOnce
  · rw [hplaces]
    exact fun x hx => h.stored x (hpets x hx)

/-- The number that is given out is above all others. -/
theorem number (h : Sound trace σ) (i : ι) {p : Pet}
    (hp : p.id = σ.store.counter + 1) :
    Sound (trace ++ [(i, .numbered (σ.store.counter + 1))])
      { store := { σ.store with counter := σ.store.counter + 1 },
        calls := Function.update σ.calls i
          (.numbered (σ.store.counter + 1) p) } := by
  have hnumbers : numbers (trace ++ [(i, .numbered (σ.store.counter + 1))])
      = numbers trace ++ [σ.store.counter + 1] := numbers_snoc ..
  have hplaces : places (trace ++ [(i, .numbered (σ.store.counter + 1))])
      = places trace := (places_snoc ..).trans (List.append_nil _)
  -- all numbers that were given out lie within the counter
  have hnew : σ.store.counter + 1 ∉ numbers trace := by
    intro hmem
    have := h.bounds _ hmem
    omega
  have hcounter := h.counter
  constructor
  · show 0 ≤ σ.store.counter + 1
    omega
  · intro id hid
    show 1 ≤ id ∧ id ≤ σ.store.counter + 1
    rw [hnumbers] at hid
    rcases List.mem_append.1 hid with hid | hid
    · have := h.bounds id hid
      omega
    · rw [List.mem_singleton.1 hid]
      omega
  · rw [hnumbers]
    exact List.nodup_append'.2 ⟨h.once, List.nodup_singleton _,
      List.disjoint_singleton.2 hnew⟩
  · intro j id q hj
    rw [hnumbers, hplaces]
    rcases held_numbered hj with ⟨-, rfl, rfl⟩ | ⟨-, hj⟩
    · exact ⟨hp, List.mem_append_right _ (List.mem_singleton.2 rfl),
        fun hmem => hnew (h.placed _ hmem)⟩
    · obtain ⟨hq, hmem, hnot⟩ := h.held j id q hj
      exact ⟨hq, List.mem_append_left _ hmem, hnot⟩
  · intro j k id q r hj hk
    rcases held_numbered hj with ⟨hji, rfl, -⟩ | ⟨-, hj'⟩
    · rcases held_numbered hk with ⟨hki, -, -⟩ | ⟨-, hk'⟩
      · exact hji.trans hki.symm
      · exact absurd (h.held k _ r hk').2.1 hnew
    · rcases held_numbered hk with ⟨-, rfl, -⟩ | ⟨-, hk'⟩
      · exact absurd (h.held j _ q hj').2.1 hnew
      · exact h.apart j k id q r hj' hk'
  · intro id hid
    rw [hplaces] at hid
    rw [hnumbers]
    exact List.mem_append_left _ (h.placed id hid)
  · rw [hplaces]
    exact h.placedOnce
  · rw [hplaces]
    exact h.stored

/-- The pet that is placed gives its number back for good. -/
theorem place (h : Sound trace σ) {id : Int} {p : Pet}
    (hcall : σ.calls i = .numbered id p) :
    Sound (trace ++ [(i, .placed id p)])
      { store := σ.store.place id p,
        calls := Function.update σ.calls i .done } := by
  -- the call held this number, which no other call holds and no pet stands under
  obtain ⟨hp, hmem, hnot⟩ := h.held i id p hcall
  have hnumbers : numbers (trace ++ [(i, .placed id p)]) = numbers trace :=
    (numbers_snoc ..).trans (List.append_nil _)
  have hplaces : places (trace ++ [(i, .placed id p)]) = places trace ++ [id] :=
    places_snoc ..
  constructor
  · exact h.counter
  · rw [hnumbers]
    exact h.bounds
  · rw [hnumbers]
    exact h.once
  · intro j id' q hj
    obtain ⟨hji, hj⟩ := held_done hj
    obtain ⟨hq, hmem', hnot'⟩ := h.held j id' q hj
    rw [hnumbers, hplaces]
    refine ⟨hq, hmem', fun hin => ?_⟩
    rcases List.mem_append.1 hin with hin | hin
    · exact hnot' hin
    · rw [List.mem_singleton.1 hin] at hj
      exact hji (h.apart j i id q p hj hcall)
  · intro j k id' q r hj hk
    exact h.apart j k id' q r (held_done hj).2 (held_done hk).2
  · intro id' hid
    rw [hplaces] at hid
    rw [hnumbers]
    rcases List.mem_append.1 hid with hid | hid
    · exact h.placed id' hid
    · rw [List.mem_singleton.1 hid]
      exact hmem
  · rw [hplaces]
    exact List.nodup_append'.2 ⟨h.placedOnce, List.nodup_singleton _,
      List.disjoint_singleton.2 hnot⟩
  · intro x hx
    rw [hplaces]
    rcases Shelf.mem_insert hx with rfl | hx
    · exact ⟨hp, List.mem_append_right _ (List.mem_singleton.2 rfl)⟩
    · obtain ⟨hid, hin⟩ := h.stored x hx
      exact ⟨hid, List.mem_append_left _ hin⟩

/-- Every step keeps the invariant. -/
theorem step (h : Sound trace σ) (hstep : Step σ i e σ') :
    Sound (trace ++ [(i, e)]) σ' := by
  obtain ⟨p, rfl, hp, rfl⟩ | ⟨id, p, rfl, hcall, rfl⟩ | ⟨id, rfl, rfl⟩
    | ⟨hreads, rfl⟩ := hstep.cases
  · exact h.number i hp
  · exact h.place hcall
  · exact h.silent i ⟨rfl, rfl⟩ rfl fun x hx => List.mem_of_mem_filter hx
  · exact h.silent i hreads.silent rfl fun x hx => hx

/-- However the steps of the calls follow one another. -/
theorem run {before after : List (ι × Event)} (h : Sound before σ)
    (hrun : Run σ after σ') : Sound (before ++ after) σ' := by
  induction hrun generalizing before with
  | nil =>
      rw [List.append_nil]
      exact h
  | cons hstep _ ih =>
      rw [List.append_cons]
      exact ih (h.step hstep)

theorem of_run {failing : Bool} {tasks : ι → Task}
    (h : Run (Interleaving.fresh failing tasks) trace σ) : Sound trace σ :=
  (initially failing tasks).run h

end Sound

-- ============================================================ one pet

/-- A pet that is stored stays, unchanged, if its number is not deleted. -/
theorem Sound.stays (h : Sound trace σ) (hstep : Step σ i e σ') {id : Int}
    {p : Pet} (hstored : σ.store.pets.get? id = some p)
    (hnot : ∀ found, e ≠ .deleted id found) :
    σ'.store.pets.get? id = some p := by
  obtain ⟨q, rfl, hq, rfl⟩ | ⟨j, q, rfl, hcall, rfl⟩ | ⟨j, rfl, rfl⟩
    | ⟨hreads, rfl⟩ := hstep.cases
  · exact hstored
  · have hne : id ≠ j := by
      rintro rfl
      rw [h.free hcall] at hstored
      cases hstored
    show (σ.store.pets.insert j q).get? id = some p
    rw [Shelf.get?_insert_of_ne _ _ hne, hstored]
  · have hne : id ≠ j := by
      rintro rfl
      exact hnot _ rfl
    show (σ.store.pets.erase j).get? id = some p
    rw [Shelf.get?_erase_of_ne _ hne, hstored]
  · exact hstored

omit [DecidableEq ι] in
/-- A number that is deleted with its pet has been placed. -/
theorem Sound.deleted_placed (h : Sound trace σ) {id : Int}
    (hfound : (σ.store.pets.get? id).isSome = true) : id ∈ places trace := by
  obtain ⟨p, hp⟩ := Option.isSome_iff_exists.1 hfound
  exact (h.stored _ (Shelf.mem_of_get? hp)).2

/-- So it does over a whole run. -/
theorem Sound.stays_run {after : List (ι × Event)} (h : Sound trace σ)
    (hrun : Run σ after σ') {id : Int} {p : Pet}
    (hstored : σ.store.pets.get? id = some p)
    (hnot : ∀ j found, (j, .deleted id found) ∉ after) :
    σ'.store.pets.get? id = some p := by
  induction hrun generalizing trace with
  | nil => exact hstored
  | @cons σ σ' σ'' i e rest hstep _ ih =>
      have hkeep : σ'.store.pets.get? id = some p := by
        refine h.stays hstep hstored fun found he => ?_
        exact hnot i found (he ▸ List.mem_cons_self ..)
      exact ih (h.step hstep) hkeep fun j found hmem =>
        hnot j found (List.mem_cons_of_mem _ hmem)

/-- A run comes by the systems before and behind each of its steps. -/
theorem Run.around {before after : List (ι × Event)}
    (h : Run start (before ++ (i, e) :: after) σ) :
    ∃ mid mid', Run start before mid ∧ Step mid i e mid' ∧ Run mid' after σ := by
  induction before generalizing start with
  | nil =>
      cases h with
      | cons hstep hrest => exact ⟨start, _, .nil start, hstep, hrest⟩
  | cons x before ih =>
      cases h with
      | cons hstep hrest =>
          obtain ⟨mid, mid', hbefore, hmid, hafter⟩ := ih hrest
          exact ⟨mid, mid', .cons hstep hbefore, hmid, hafter⟩

/-- A pet is placed by the call that holds its number. -/
theorem Step.of_placed {id : Int} {p : Pet} (h : Step σ i (.placed id p) σ') :
    σ.calls i = .numbered id p ∧ σ'.store = σ.store.place id p := by
  obtain ⟨_, he, -⟩ | ⟨_, _, he, hcall, rfl⟩ | ⟨_, he, -⟩ | ⟨he, -⟩ := h.cases
  · cases he
  · cases he
    exact ⟨hcall, rfl⟩
  · cases he
  · cases he

/-- A deletion tells whether the pet was there. -/
theorem Step.of_deleted {id : Int} {found : Bool}
    (h : Step σ i (.deleted id found) σ') :
    found = (σ.store.pets.get? id).isSome := by
  obtain ⟨_, he, -⟩ | ⟨_, _, he, -⟩ | ⟨_, he, -⟩ | ⟨he, -⟩ := h.cases
  · cases he
  · cases he
  · cases he
    rfl
  · cases he

omit [DecidableEq ι] in
theorem mem_numbers {id : Int} (h : (i, Event.numbered id) ∈ trace) :
    id ∈ numbers trace := List.mem_filterMap.2 ⟨_, h, rfl⟩

omit [DecidableEq ι] in
theorem mem_places {id : Int} {p : Pet} (h : (i, Event.placed id p) ∈ trace) :
    id ∈ places trace := List.mem_filterMap.2 ⟨_, h, rfl⟩

-- ========================================================= main result

/-- However the steps of calls on a new store follow one another: every stored
pet stands under its own id, between one and the counter; no number is given
out twice; where a pet is placed there was none; a number that was deleted with
its pet is neither given out nor used again; and a pet that was placed is
there, unchanged, unless its number was deleted since. -/
theorem no_pet_lost_or_duplicated (failing : Bool) (tasks : ι → Task)
    (h : Run (fresh failing tasks) trace σ) :
    (∀ x ∈ σ.store.pets, x.2.id = x.1 ∧ 1 ≤ x.1 ∧ x.1 ≤ σ.store.counter)
      ∧ (numbers trace).Nodup
      ∧ (∀ i id p σ', Step σ i (.placed id p) σ' →
          σ.store.pets.get? id = none ∧ σ'.store.pets.get? id = some p)
      ∧ (∀ before i id after, trace = before ++ (i, .deleted id true) :: after →
          ∀ j, (j, .numbered id) ∉ after ∧ ∀ p, (j, .placed id p) ∉ after)
      ∧ ∀ before i id p after, trace = before ++ (i, .placed id p) :: after →
          (∀ j found, (j, .deleted id found) ∉ after) →
          σ.store.pets.get? id = some p := by
  have hsound := Sound.of_run h
  refine ⟨fun x hx => ?_, hsound.once, fun i id p σ' hstep => ?_, ?_, ?_⟩
  · obtain ⟨hid, hplaced⟩ := hsound.stored x hx
    exact ⟨hid, hsound.bounds _ (hsound.placed _ hplaced)⟩
  · obtain ⟨hcall, hstore⟩ := hstep.of_placed
    refine ⟨hsound.free hcall, ?_⟩
    rw [hstore]
    exact Shelf.get?_insert_self ..
  -- a deleted pet was placed before, and places and numbers occur once in a run
  · rintro before i id after rfl j
    obtain ⟨mid, mid', hbefore, hmid, hafter⟩ := h.around
    have hplaced : id ∈ places before :=
      (Sound.of_run hbefore).deleted_placed hmid.of_deleted.symm
    have hnumbered : id ∈ numbers before :=
      (Sound.of_run hbefore).placed _ hplaced
    refine ⟨fun hmem => ?_, fun p hmem => ?_⟩
    · have honce := hsound.once
      unfold numbers at honce
      rw [List.filterMap_append] at honce
      exact List.disjoint_of_nodup_append honce hnumbered
        (mem_numbers (List.mem_cons_of_mem _ hmem))
    · have honce := hsound.placedOnce
      unfold places at honce
      rw [List.filterMap_append] at honce
      exact List.disjoint_of_nodup_append honce hplaced
        (mem_places (List.mem_cons_of_mem _ hmem))
  · rintro before i id p after rfl hnot
    obtain ⟨mid, mid', hbefore, hmid, hafter⟩ := h.around
    refine ((Sound.of_run hbefore).step hmid).stays_run hafter ?_ hnot
    rw [hmid.of_placed.2]
    exact Shelf.get?_insert_self ..

-- two calls that cross, on which the statement above is tried out

/-- Two calls; each adds a pet. -/
def pair : Bool → Task
  | false => .insert "Rex" .available
  | true => .insert "Tom" .sold

/-- The pet of the first call. -/
def rex : Pet := { id := 1, name := "Rex", status := some .available }

/-- The pet of the second call. -/
def tom : Pet := { id := 2, name := "Tom", status := some .sold }

/-- The first call takes a number, the second comes in between with both of its
steps, and the first pet is in its place all the same. -/
theorem no_pet_lost_or_duplicated_pair :
    ∃ σ, Run (fresh false pair) [(false, .numbered 1), (true, .numbered 2),
        (true, .placed 2 tom), (false, .placed 1 rex)] σ
      ∧ σ.store.pets.get? 1 = some rex ∧ σ.store.pets.get? 2 = some tom := by
  have now : Calendar.Timestamp :=
    { date := { year := 2024, month := 1, day := 1 },
      hour := 12, minute := 0, second := 0 }
  have hrun : ∃ σ, Run (fresh false pair) [(false, .numbered 1),
      (true, .numbered 2), (true, .placed 2 tom), (false, .placed 1 rex)] σ :=
    ⟨_, .cons (.begin now (pair false) rfl) (.cons (.begin now (pair true) rfl)
      (.cons (.place 2 tom rfl) (.cons (.place 1 rex rfl) (.nil _))))⟩
  obtain ⟨σ, hrun⟩ := hrun
  obtain ⟨-, -, -, -, hstays⟩ := no_pet_lost_or_duplicated false pair hrun
  refine ⟨σ, hrun, hstays [(false, .numbered 1), (true, .numbered 2),
    (true, .placed 2 tom)] false 1 rex [] rfl ?_, hstays [(false, .numbered 1),
    (true, .numbered 2)] true 2 tom [(false, .placed 1 rex)] rfl ?_⟩
  · simp
  · simp

end ApiForge.Petstore.Interleaving
