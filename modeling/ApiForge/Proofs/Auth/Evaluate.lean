import ApiForge.Auth.Evaluate
import Mathlib.Data.List.Forall2
/-!
What the evaluation of a requirement asks of the authenticator, and what it
makes of the answers.

# The record

An authenticator is a stateful function, so an evaluation shows neither how
often it is called nor with what. `Authenticator.recorded` is the same
authenticator with a record of its exchanges beside its state; it answers as
the bare one does, so the record of a run is a fact about the bare run too.

# What a record shows

A clause is met by one accepted exchange for each of its schemes (`Meets`),
and given up at the first scheme that is not declared, that the request shows
no credential for, or that is rejected (`GivesUp`). `Decision` puts the
clauses together: those before the first that is met are given up one after
the other, and the exchanges of one clause follow those of the clause before
it. The module proves that every run leaves a record of this form.
-/

namespace ApiForge.Auth

open ApiForge.Http (Request)

variable {σ α : Type}

-- ================================================ statement vocabulary

/-- A question to the authenticator with its answer. -/
structure Exchange where
  scheme : String
  credential : Credential
  scopes : List String
  answer : Except AuthError Principal

/-- The authenticator with a record: every exchange is noted behind those
that the record holds. -/
def Authenticator.recorded (note : Exchange → α) (a : Authenticator σ) :
    Authenticator (σ × List α) :=
  fun scheme credential scopes => fun (s, record) =>
    let (answer, s) := a scheme credential scopes s
    (answer, (s, record ++ [note ⟨scheme, credential, scopes, answer⟩]))

variable (schemes : SchemeTable) (r : Request)

/-- The credential that a request shows for a scheme, nothing if the scheme
is not declared. -/
def credentialFor? (name : String) : Option Credential :=
  (schemes.get? name).bind fun scheme => scheme.credential? r

/-- An exchange is about an entry of a clause: its scheme, the credential
that the request shows for it, and its scopes. -/
structure Asks (entry : String × List String) (x : Exchange) : Prop where
  scheme : x.scheme = entry.1
  credential : credentialFor? schemes r entry.1 = some x.credential
  scopes : x.scopes = entry.2

/-- Every entry of a clause is asked about in order, and accepted. -/
def Meets (clause : Clause) (trace : List Exchange) : Prop :=
  List.Forall₂ (fun entry x => Asks schemes r entry x ∧ ∃ p, x.answer = .ok p)
    clause trace

/-- The entries before some entry are asked about and accepted. That entry
is asked about and rejected, or cannot be asked about. -/
def GivesUp (clause : Clause) (trace : List Exchange) : Prop :=
  ∃ before entry after accepted,
    clause = before ++ entry :: after ∧ Meets schemes r before accepted ∧
      ((credentialFor? schemes r entry.1 = none ∧ trace = accepted)
        ∨ ∃ x e, Asks schemes r entry x ∧ x.answer = .error e
            ∧ trace = accepted ++ [x])

/-- What a clause grants that is met: nobody is asked for if it is empty,
else the principal of its last entry counts. -/
inductive Grants : Clause → List Exchange → Outcome → Prop
  | empty : Grants [] [] .anonymous
  | last {clause : Clause} {trace : List Exchange}
      {entry : String × List String} {x : Exchange} {p : Principal} :
      clause.getLast? = some entry → trace.getLast? = some x →
      x.answer = .ok p →
      Grants clause trace (.authenticated ⟨p, entry.1, entry.2⟩)

/-- How clauses come to an outcome, with the exchanges of each clause that
is tried: the first one that is met decides, and none before it is. -/
inductive Decision : List Clause → List (List Exchange) → Outcome → Prop
  | first {before after : List Clause} {clause : Clause}
      {failures : List (List Exchange)} {trace : List Exchange}
      {outcome : Outcome} :
      List.Forall₂ (GivesUp schemes r) before failures →
      Meets schemes r clause trace → Grants clause trace outcome →
      Decision (before ++ clause :: after) (failures ++ [trace]) outcome
  | none {clauses : List Clause} {failures : List (List Exchange)} :
      List.Forall₂ (GivesUp schemes r) clauses failures →
      Decision clauses failures .unauthenticated

-- ==================================================== recorded runs

/-- A run with a record answers as the bare run does from the same state,
and notes the exchanges of `trace`. -/
def Leaves {β : Type} (note : Exchange → α) (bare : StateM σ β)
    (recorded : StateM (σ × List α) β) (s : σ) (trace : List Exchange) : Prop :=
  ∀ record, recorded (s, record)
    = ((bare s).1, ((bare s).2, record ++ trace.map note))

variable {schemes r} {note : Exchange → α}

theorem leaves_pure {β : Type} (b : β) (s : σ) :
    Leaves note (pure b) (pure b) s [] := by
  intro record
  show (b, s, record) = (b, s, record ++ [].map note)
  rw [List.map_nil, List.append_nil]

/-- The record of two runs in a row is the record of the first, then that of
the second from the state the first ends in. -/
theorem leaves_bind {β γ : Type} {bare : StateM σ β}
    {recorded : StateM (σ × List α) β} {f : β → StateM σ γ}
    {g : β → StateM (σ × List α) γ} {s : σ} {t₁ t₂ : List Exchange}
    (h₁ : Leaves note bare recorded s t₁)
    (h₂ : Leaves note (f (bare s).1) (g (bare s).1) (bare s).2 t₂) :
    Leaves note (bare >>= f) (recorded >>= g) s (t₁ ++ t₂) := by
  intro record
  show g (recorded (s, record)).1 (recorded (s, record)).2 = _
  rw [h₁ record]
  show g (bare s).1 ((bare s).2, record ++ t₁.map note) = _
  rw [h₂, List.map_append, List.append_assoc]
  rfl

/-- One call is one exchange. -/
theorem leaves_call (note : Exchange → α) (a : Authenticator σ)
    (scheme : String) (credential : Credential) (scopes : List String)
    (s : σ) :
    Leaves note (a scheme credential scopes)
      (a.recorded note scheme credential scopes) s
      [⟨scheme, credential, scopes, (a scheme credential scopes s).1⟩] :=
  fun _ => rfl

-- ======================================================== one scheme

variable (schemes r) (a : Authenticator σ) (note : Exchange → α)

/-- How one entry of a clause is tried: not at all if no credential can be
shown for it, else in one exchange that gives the identity or the fault. -/
theorem tryScheme_leaves (entry : String × List String) (s : σ) :
    ∃ trace, Leaves note (tryScheme schemes a r entry.1 entry.2)
        (tryScheme schemes (a.recorded note) r entry.1 entry.2) s trace
      ∧ match (tryScheme schemes a r entry.1 entry.2 s).1 with
        | .ok who => ∃ x p, trace = [x] ∧ Asks schemes r entry x
            ∧ x.answer = .ok p ∧ who = ⟨p, entry.1, entry.2⟩
        | .error _ =>
            (credentialFor? schemes r entry.1 = none ∧ trace = [])
              ∨ ∃ x e, trace = [x] ∧ Asks schemes r entry x
                  ∧ x.answer = .error e := by
  obtain ⟨name, scopes⟩ := entry
  -- a scheme that is not declared, one without credential, and one that is asked
  cases hs : schemes.get? name with
  | none =>
      refine ⟨[], ?_, ?_⟩
      · simp only [tryScheme, hs]
        exact leaves_pure _ s
      · simp only [tryScheme, hs]
        refine Or.inl ⟨?_, trivial⟩
        simp [credentialFor?, hs]
  | some scheme =>
      cases hc : scheme.credential? r with
      | none =>
          refine ⟨[], ?_, ?_⟩
          · simp only [tryScheme, hs, hc]
            exact leaves_pure _ s
          · simp only [tryScheme, hs, hc]
            refine Or.inl ⟨?_, trivial⟩
            simp [credentialFor?, hs, hc]
      | some credential =>
          have hfor : credentialFor? schemes r name = some credential := by
            simp [credentialFor?, hs, hc]
          refine ⟨[⟨name, credential, scopes,
            (a name credential scopes s).1⟩], ?_, ?_⟩
          · simp only [tryScheme, hs, hc]
            have hcall := leaves_call note a name credential scopes s
            refine leaves_bind hcall ?_
            split <;> exact leaves_pure _ _
          · simp only [tryScheme, hs, hc, bind, StateT.bind]
            cases hp : a name credential scopes s with
            | mk answer s' =>
                cases answer with
                | ok p => exact ⟨_, p, rfl, ⟨rfl, hfor, rfl⟩, rfl, rfl⟩
                | error e => exact Or.inr ⟨_, e, rfl, ⟨rfl, hfor, rfl⟩, rfl⟩

-- ======================================================== one clause

variable {schemes r}

/-- The identity that the last of a row of accepted exchanges gives, `last`
if there is none. -/
def EndsWith (last : Option Identity) (clause : Clause)
    (trace : List Exchange) (who : Option Identity) : Prop :=
  (clause = [] ∧ trace = [] ∧ who = last)
    ∨ ∃ entry x p, clause.getLast? = some entry
        ∧ trace.getLast? = some x ∧ x.answer = .ok p
        ∧ who = some ⟨p, entry.1, entry.2⟩

/-- One more accepted exchange in front leaves the last one in its place. -/
theorem endsWith_cons {last who : Option Identity} {clause : Clause}
    {trace : List Exchange} {entry : String × List String} {x : Exchange}
    {p : Principal} (hx : x.answer = .ok p)
    (h : EndsWith (some ⟨p, entry.1, entry.2⟩) clause trace who) :
    EndsWith last (entry :: clause) (x :: trace) who := by
  rcases h with ⟨rfl, rfl, rfl⟩ | ⟨entry', x', p', he, hx', hp', rfl⟩
  · exact Or.inr ⟨entry, x, p, rfl, rfl, hx, rfl⟩
  · refine Or.inr ⟨entry', x', p', ?_, ?_, hp', rfl⟩
    · rw [List.getLast?_cons, he, Option.getD_some]
    · rw [List.getLast?_cons, hx', Option.getD_some]

/-- A clause whose first entry is accepted is given up where the rest is. -/
theorem givesUp_cons {entry : String × List String} {clause : Clause}
    {x : Exchange} {trace : List Exchange} (ha : Asks schemes r entry x)
    (hx : ∃ p, x.answer = .ok p) (h : GivesUp schemes r clause trace) :
    GivesUp schemes r (entry :: clause) (x :: trace) := by
  obtain ⟨before, stop, after, accepted, rfl, hmeets, hstop⟩ := h
  refine ⟨entry :: before, stop, after, x :: accepted, rfl,
    .cons ⟨ha, hx⟩ hmeets, ?_⟩
  rcases hstop with ⟨hnone, rfl⟩ | ⟨y, e, hy, he, rfl⟩
  · exact Or.inl ⟨hnone, rfl⟩
  · exact Or.inr ⟨y, e, hy, he, rfl⟩

variable (schemes r)

variable {a} in
/-- An accepted entry hands its identity on to the rest of the clause. -/
theorem satisfy_cons_ok {entry : String × List String} {rest : Clause}
    {last : Option Identity} {s s₁ : σ} {who : Identity}
    (h : tryScheme schemes a r entry.1 entry.2 s = (.ok who, s₁)) :
    satisfy schemes a r last (entry :: rest) s
      = satisfy schemes a r (some who) rest s₁ := by
  simp only [satisfy, bind, StateT.bind, h]

variable {a} in
/-- A faulty entry ends the clause. -/
theorem satisfy_cons_error {entry : String × List String} {rest : Clause}
    {last : Option Identity} {s s₁ : σ} {e : AuthError}
    (h : tryScheme schemes a r entry.1 entry.2 s = (.error e, s₁)) :
    satisfy schemes a r last (entry :: rest) s = (.error e, s₁) := by
  simp only [satisfy, bind, StateT.bind, h]
  rfl

/-- A clause is either met by accepted exchanges only, and the last of them
gives the identity, or given up. -/
theorem satisfy_leaves (clause : Clause) (last : Option Identity) (s : σ) :
    ∃ trace, Leaves note (satisfy schemes a r last clause)
        (satisfy schemes (a.recorded note) r last clause) s trace
      ∧ match (satisfy schemes a r last clause s).1 with
        | .ok who => Meets schemes r clause trace
            ∧ EndsWith last clause trace who
        | .error _ => GivesUp schemes r clause trace := by
  induction clause generalizing last s with
  | nil => exact ⟨[], leaves_pure _ s, .nil, Or.inl ⟨rfl, rfl, rfl⟩⟩
  | cons entry rest ih =>
      obtain ⟨t, hleaves, htry⟩ := tryScheme_leaves schemes r a note entry s
      -- the first entry is tried on its own, and decides whether the others are
      cases hrun : tryScheme schemes a r entry.1 entry.2 s with
      | mk result s₁ =>
          rw [hrun] at htry
          cases result with
          | error e =>
              refine ⟨t ++ [], leaves_bind hleaves ?_, ?_⟩
              · rw [hrun]
                exact leaves_pure _ _
              · rw [satisfy_cons_error schemes r hrun, List.append_nil]
                rcases htry with ⟨hnone, rfl⟩ | ⟨x, e', rfl, hx, he⟩
                · exact ⟨[], entry, rest, [], rfl, .nil, Or.inl ⟨hnone, rfl⟩⟩
                · exact ⟨[], entry, rest, [], rfl, .nil,
                    Or.inr ⟨x, e', hx, he, rfl⟩⟩
          | ok who =>
              obtain ⟨x, p, rfl, hx, hp, rfl⟩ := htry
              obtain ⟨t', hleaves', hrest⟩ :=
                ih (some ⟨p, entry.1, entry.2⟩) s₁
              refine ⟨[x] ++ t', leaves_bind hleaves ?_, ?_⟩
              · rw [hrun]
                exact hleaves'
              · rw [satisfy_cons_ok schemes r hrun]
                cases hwho : (satisfy schemes a r
                    (some ⟨p, entry.1, entry.2⟩) rest s₁).1 with
                | ok who' =>
                    rw [hwho] at hrest
                    exact ⟨.cons ⟨hx, p, hp⟩ hrest.1, endsWith_cons hp hrest.2⟩
                | error e =>
                    rw [hwho] at hrest
                    exact givesUp_cons hx ⟨p, hp⟩ hrest

-- ======================================================= all clauses

variable {schemes r} in
/-- A clause that is given up leaves the decision to those behind it. -/
theorem decision_cons {clause : Clause} {clauses : List Clause}
    {trace : List Exchange} {traces : List (List Exchange)}
    {outcome : Outcome} (h : GivesUp schemes r clause trace)
    (hrest : Decision schemes r clauses traces outcome) :
    Decision schemes r (clause :: clauses) (trace :: traces) outcome := by
  cases hrest with
  | first hbefore hmeets hgrants =>
      exact Decision.first (.cons h hbefore) hmeets hgrants
  | none hall => exact Decision.none (.cons h hall)

variable {schemes r} in
/-- A clause that is met decides at once. -/
theorem decision_met {clause : Clause} {clauses : List Clause}
    {trace : List Exchange} {outcome : Outcome}
    (h : Meets schemes r clause trace) (hg : Grants clause trace outcome) :
    Decision schemes r (clause :: clauses) [trace] outcome :=
  Decision.first (.nil) h hg

/-- Clauses that are tried in order leave the exchanges of a decision. -/
theorem evaluateClauses_leaves (clauses : List Clause) (s : σ) :
    ∃ traces, Leaves note (evaluateClauses schemes a r clauses)
        (evaluateClauses schemes (a.recorded note) r clauses) s traces.flatten
      ∧ Decision schemes r clauses traces
          (evaluateClauses schemes a r clauses s).1 := by
  induction clauses generalizing s with
  | nil => exact ⟨[], leaves_pure _ s, Decision.none .nil⟩
  | cons clause rest ih =>
      obtain ⟨t, hleaves, hclause⟩ :=
        satisfy_leaves schemes r a note clause none s
      -- a clause that is met ends the search, and one that is given up leaves it to the
      -- rest
      cases hrun : satisfy schemes a r none clause s with
      | mk result s₁ =>
          rw [hrun] at hclause
          cases result with
          | error e =>
              obtain ⟨ts, hleaves', hrest⟩ := ih s₁
              refine ⟨t :: ts, leaves_bind hleaves ?_, ?_⟩
              · rw [hrun]
                exact hleaves'
              · simp only [evaluateClauses, bind, StateT.bind, hrun]
                exact decision_cons hclause hrest
          | ok who =>
              refine ⟨[t], leaves_bind hleaves ?_, ?_⟩
              · rw [hrun]
                cases who <;> exact leaves_pure _ _
              · simp only [evaluateClauses, bind, StateT.bind, hrun]
                obtain ⟨hmeets, ⟨rfl, rfl, rfl⟩ | ⟨_, _, _, he, hx, hp, rfl⟩⟩ :=
                  hclause
                · exact decision_met hmeets .empty
                · exact decision_met hmeets (.last he hx hp)

variable {schemes r}

/-- A clause that is met is asked about whole. -/
theorem Meets.schemes_eq {clause : Clause} {trace : List Exchange}
    (h : Meets schemes r clause trace) :
    trace.map Exchange.scheme = clause.map Prod.fst := by
  induction h with
  | nil => rfl
  | cons hx _ ih => rw [List.map_cons, List.map_cons, hx.1.scheme, ih]

/-- A clause that is given up is asked about up to some entry. -/
theorem GivesUp.schemes_prefix {clause : Clause} {trace : List Exchange}
    (h : GivesUp schemes r clause trace) :
    trace.map Exchange.scheme <+: clause.map Prod.fst := by
  obtain ⟨before, entry, after, accepted, rfl, hmeets, hstop⟩ := h
  rcases hstop with ⟨-, rfl⟩ | ⟨x, e, hx, -, rfl⟩
  · rw [hmeets.schemes_eq, List.map_append]
    exact List.prefix_append _ _
  · refine ⟨after.map Prod.fst, ?_⟩
    simp [hmeets.schemes_eq, hx.scheme]

/-- The exchanges of clauses that are given up follow the names of their
schemes. -/
theorem givesUp_name_order {clauses : List Clause}
    {traces : List (List Exchange)}
    (h : List.Forall₂ (GivesUp schemes r) clauses traces)
    (hs : ∀ c ∈ clauses, Table.Sorted c) {t : List Exchange}
    (ht : t ∈ traces) :
    (t.map Exchange.scheme).Pairwise (· < ·) := by
  induction h with
  | nil => cases ht
  | cons hhead _ ih =>
      rcases List.mem_cons.1 ht with rfl | ht
      · have hsorted := List.pairwise_map.2 (hs _ (List.mem_cons_self ..))
        exact hsorted.sublist hhead.schemes_prefix.sublist
      · exact ih (fun c hc => hs c (List.mem_cons_of_mem _ hc)) ht

/-- The exchanges of one clause follow the names of its schemes. -/
theorem Decision.name_order {clauses : List Clause}
    {traces : List (List Exchange)} {outcome : Outcome}
    (h : Decision schemes r clauses traces outcome)
    (hs : ∀ c ∈ clauses, Table.Sorted c) {t : List Exchange}
    (ht : t ∈ traces) :
    (t.map Exchange.scheme).Pairwise (· < ·) := by
  cases h with
  | none hall => exact givesUp_name_order hall hs ht
  | first hbefore hmeets _ =>
      rcases List.mem_append.1 ht with ht | ht
      · exact givesUp_name_order hbefore
          (fun c hc => hs c (List.mem_append_left _ hc)) ht
      · rw [List.mem_singleton.1 ht, hmeets.schemes_eq]
        exact List.pairwise_map.2 (hs _ (by simp))

-- ======================================================= main result

/-- Evaluation is an ordered choice between conjunctions. Whatever state the
authenticator keeps, the first clause that is met decides, and the record
holds, clause after clause and in name order, exactly the questions up to
the first fault of each clause that is tried. Anonymous access asks
nothing. -/
theorem evaluate_first_met (schemes : SchemeTable) (r : Request)
    (a : Authenticator σ) (s : σ) (clauses : List Clause)
    (hs : ∀ c ∈ clauses, Table.Sorted c) :
    (∃ traces outcome s',
        evaluate schemes a r (.clauses clauses) s = (outcome, s')
          ∧ evaluate schemes (a.recorded id) r (.clauses clauses) (s, [])
              = (outcome, (s', traces.flatten))
          ∧ Decision schemes r clauses traces outcome
          ∧ ∀ t ∈ traces, (t.map Exchange.scheme).Pairwise (· < ·))
      ∧ evaluate schemes (a.recorded id) r .anonymous (s, [])
          = (.anonymous, (s, ([] : List Exchange))) := by
  obtain ⟨traces, hleaves, hdec⟩ :=
    evaluateClauses_leaves schemes r a id clauses s
  refine ⟨⟨traces, _, _, rfl, ?_, hdec, fun t ht => hdec.name_order hs ht⟩, rfl⟩
  have hrun := hleaves []
  rw [List.map_id, List.nil_append] at hrun
  exact hrun

-- a service with one key, on which the statement above is tried out

/-- One scheme: a key in a header. -/
def oneKey : SchemeTable := [("key", .apiKey "x-key" .header)]

/-- A request that shows the key. -/
def keyRequest : Request := ⟨⟨"GET"⟩, ⟨"/", none⟩, [⟨"x-key", [107]⟩], []⟩

/-- Accepts everything, and counts its calls. -/
def counting : Authenticator Nat := fun name _ _ n => (.ok ⟨name, []⟩, n + 1)

/-- Two clauses: one with a scheme that is not declared behind the key, and
the key alone. -/
def keyClauses : List Clause := [[("key", []), ("oidc", [])], [("key", ["read"])]]

/-- The first clause is given up behind an accepted key, the second is met. -/
theorem evaluate_first_met_second :
    (∀ c ∈ keyClauses, Table.Sorted c)
      ∧ ∃ traces s',
          evaluate oneKey (counting.recorded id) keyRequest
              (.clauses keyClauses) (0, [])
            = (.authenticated ⟨⟨"key", []⟩, "key", ["read"]⟩,
                (s', traces.flatten))
          ∧ Decision oneKey keyRequest keyClauses traces
              (.authenticated ⟨⟨"key", []⟩, "key", ["read"]⟩) := by
  have hs : ∀ c ∈ keyClauses, Table.Sorted c := by
    simp only [keyClauses, Table.Sorted]
    decide
  obtain ⟨⟨traces, outcome, s', hbare, hrun, hdec, -⟩, -⟩ :=
    evaluate_first_met oneKey keyRequest counting 0 keyClauses hs
  have hout : (evaluate oneKey counting keyRequest (.clauses keyClauses) 0).1
      = .authenticated ⟨⟨"key", []⟩, "key", ["read"]⟩ := by decide +kernel
  rw [hbare] at hout
  exact ⟨hs, traces, s', hout ▸ hrun, hout ▸ hdec⟩

end ApiForge.Auth
