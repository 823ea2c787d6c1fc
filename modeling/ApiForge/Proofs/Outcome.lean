import Mathlib.Data.List.Forall2
/-!
What steps give that keep a state and may fail.

`Yields m P` says that whatever the step `m` gives satisfies `P`, from any
state. A step that fails gives nothing. The rules follow the ways in which
steps are put together. `Keeps I m P` says the same of the states that have a
property, and that the step leaves such a state. `Mirrors R m m'` is about two steps:
what the first gives, the second gives as well, up to `R`.
-/

namespace ApiForge

variable {σ ε α β : Type} {P : α → Prop} {Q : β → Prop}

/-- Whatever a step gives satisfies `P`. -/
def Yields (m : StateT σ (Except ε) α) (P : α → Prop) : Prop :=
  ∀ s a s', m.run s = .ok (a, s') → P a

namespace Yields

theorem pure {a : α} (h : P a) :
    Yields (pure a : StateT σ (Except ε) α) P := by
  intro s b s' hrun
  cases hrun
  exact h

theorem mono {m : StateT σ (Except ε) α} {P' : α → Prop} (hm : Yields m P)
    (hP : ∀ a, P a → P' a) : Yields m P' :=
  fun s a s' hrun => hP a (hm s a s' hrun)

theorem throw (e : ε) : Yields (throw e : StateT σ (Except ε) α) P := by
  intro s a s' hrun
  cases hrun

/-- A run in two parts yields what its second part does. -/
theorem bind {m : StateT σ (Except ε) α} {f : α → StateT σ (Except ε) β}
    (hm : Yields m P) (hf : ∀ a, P a → Yields (f a) Q) :
    Yields (m >>= f) Q := by
  intro s b s' hrun
  rw [StateT.run_bind] at hrun
  cases hfirst : m.run s with
  | error e => rw [hfirst] at hrun; cases hrun
  | ok r =>
      rw [hfirst] at hrun
      exact hf r.1 (hm s r.1 r.2 hfirst) r.2 b s' hrun

theorem map {m : StateT σ (Except ε) α} {f : α → β} (hm : Yields m P)
    (hf : ∀ a, P a → Q (f a)) : Yields (f <$> m) Q := by
  rw [map_eq_pure_bind]
  exact hm.bind fun a ha => .pure (hf a ha)

/-- What the first of two steps gives may not matter. -/
theorem skip {m : StateT σ (Except ε) α} {f : α → StateT σ (Except ε) β}
    (hf : ∀ a, Yields (f a) Q) : Yields (m >>= f) Q :=
  bind (P := fun _ => True) (fun _ _ _ _ => trivial) fun a _ => hf a

/-- Runs over a list yield what each of them yields. -/
theorem mapM {f : α → StateT σ (Except ε) β} {l : List α}
    (hf : ∀ a, Yields (f a) Q) : Yields (l.mapM f) fun r => ∀ b ∈ r, Q b := by
  induction l with
  | nil => exact .pure fun b hb => absurd hb List.not_mem_nil
  | cons a l ih =>
      rw [List.mapM_cons]
      refine (hf a).bind fun b hb => ih.bind fun r hr => .pure fun x hx => ?_
      rcases List.mem_cons.1 hx with rfl | hx
      · exact hb
      · exact hr x hx

/-- What the steps of a list give is related to the members of another, if each
gives what is related to the member in its place. -/
theorem forall₂_mapM {γ : Type} {f : α → StateT σ (Except ε) β}
    {R : γ → β → Prop} {l : List α} {l' : List γ}
    (h : List.Forall₂ (fun a c => Yields (f a) (R c)) l l') :
    Yields (l.mapM f) (List.Forall₂ R l') := by
  induction h with
  | nil => exact .pure .nil
  | cons ha _ ih =>
      rw [List.mapM_cons]
      exact ha.bind fun b hb => ih.bind fun r hr => .pure (.cons hb hr)

/-- A fold yields what its start satisfies and each step keeps. -/
theorem foldlM {f : α → β → StateT σ (Except ε) α} {l : List β} {a : α}
    (ha : P a) (hf : ∀ a b, P a → Yields (f a b) P) :
    Yields (l.foldlM f a) P := by
  induction l generalizing a with
  | nil => exact .pure ha
  | cons b l ih =>
      rw [List.foldlM_cons]
      exact (hf a b ha).bind fun a' ha' => ih ha'

end Yields

/-- From a state with `I`, whatever a step gives satisfies `P`, and the state
that it leaves has `I` again. -/
def Keeps (I : σ → Prop) (m : StateT σ (Except ε) α) (P : α → Prop) : Prop :=
  ∀ s a s', I s → m.run s = .ok (a, s') → P a ∧ I s'

namespace Keeps

variable {I : σ → Prop}

theorem pure {a : α} (h : P a) :
    Keeps I (pure a : StateT σ (Except ε) α) P := by
  intro s b s' hs hrun
  cases hrun
  exact ⟨h, hs⟩

/-- What a step gives may not matter. -/
theorem idle (a : α) :
    Keeps I (Pure.pure a : StateT σ (Except ε) α) fun _ => True :=
  pure trivial

theorem throw (e : ε) :
    Keeps I (throw e : StateT σ (Except ε) α) P := by
  intro s a s' hs hrun
  cases hrun

/-- A run in two parts keeps what both of them keep. -/
theorem bind {m : StateT σ (Except ε) α} {f : α → StateT σ (Except ε) β}
    (hm : Keeps I m P) (hf : ∀ a, P a → Keeps I (f a) Q) :
    Keeps I (m >>= f) Q := by
  intro s b s' hs hrun
  rw [StateT.run_bind] at hrun
  cases hfirst : m.run s with
  | error e => rw [hfirst] at hrun; cases hrun
  | ok r =>
      rw [hfirst] at hrun
      obtain ⟨hP, hI⟩ := hm s r.1 r.2 hs hfirst
      exact hf r.1 hP r.2 b s' hI hrun

/-- What is made of a step's answer may not matter either. -/
theorem map {m : StateT σ (Except ε) α} (hm : Keeps I m P) (f : α → β) :
    Keeps I (f <$> m) fun _ => True := by
  rw [map_eq_pure_bind]
  exact hm.bind fun a _ => idle (f a)

end Keeps

/-- Whatever the first step gives, the second gives something that is related to it, and
leaves the same state. -/
def Mirrors (R : α → β → Prop) (m : StateT σ (Except ε) α) (m' : StateT σ (Except ε) β) :
    Prop :=
  ∀ s a s', m.run s = .ok (a, s') → ∃ b, m'.run s = .ok (b, s') ∧ R a b

namespace Mirrors

variable {γ δ : Type} {R : α → β → Prop} {S : γ → δ → Prop}
  {m : StateT σ (Except ε) α} {m' : StateT σ (Except ε) β}

theorem refl (m : StateT σ (Except ε) α) : Mirrors Eq m m :=
  fun _ a _ hrun => ⟨a, hrun, rfl⟩

theorem pure {a : α} {b : β} (h : R a b) :
    Mirrors R (pure a : StateT σ (Except ε) α) (pure b) := by
  intro s a' s' hrun
  cases hrun
  exact ⟨b, rfl, h⟩

/-- Nothing is asked of the second step where the first fails. -/
theorem of_fails (h : Yields m fun _ => False) : Mirrors R m m' :=
  fun s a s' hrun => (h s a s' hrun).elim

theorem throw (e : ε) : Mirrors R (throw e : StateT σ (Except ε) α) m' :=
  of_fails (.throw e)

theorem mono {R' : α → β → Prop} (h : Mirrors R m m') (hR : ∀ a b, R a b → R' a b) :
    Mirrors R' m m' := by
  intro s a s' hrun
  obtain ⟨b, hrun', hab⟩ := h s a s' hrun
  exact ⟨b, hrun', hR a b hab⟩

/-- Runs mirror one another in sequence, when the second parts do for related
results. -/
theorem bind {k : α → StateT σ (Except ε) γ} {k' : β → StateT σ (Except ε) δ}
    (hm : Mirrors R m m') (hk : ∀ a b, R a b → Mirrors S (k a) (k' b)) :
    Mirrors S (m >>= k) (m' >>= k') := by
  intro s c s' hrun
  rw [StateT.run_bind] at hrun
  cases hfirst : m.run s with
  | error e => rw [hfirst] at hrun; cases hrun
  | ok r =>
      rw [hfirst] at hrun
      obtain ⟨b, hfirst', hab⟩ := hm s r.1 r.2 hfirst
      obtain ⟨d, hrest, hcd⟩ := hk r.1 b hab r.2 c s' hrun
      refine ⟨d, ?_, hcd⟩
      rw [StateT.run_bind, hfirst']
      exact hrest

/-- The same is made of what both steps give. -/
theorem map {m m' : StateT σ (Except ε) α} (h : Mirrors Eq m m') (f : α → γ) :
    Mirrors Eq (m >>= fun a => Pure.pure (f a)) (m' >>= fun a => Pure.pure (f a)) := by
  refine h.bind fun a b hab => ?_
  subst hab
  exact refl _

/-- Runs over two lists mirror one another when they do member by member. -/
theorem mapM {f : α → StateT σ (Except ε) γ} {g : β → StateT σ (Except ε) δ} {l : List α}
    {l' : List β} (h : List.Forall₂ (fun a b => Mirrors S (f a) (g b)) l l') :
    Mirrors (List.Forall₂ S) (l.mapM f) (l'.mapM g) := by
  induction h with
  | nil => exact pure .nil
  | cons hab _ ih =>
      rw [List.mapM_cons, List.mapM_cons]
      exact hab.bind fun c d hcd => ih.bind fun r r' hr => pure (.cons hcd hr)

/-- Runs that drop some results mirror one another when they drop the same. -/
theorem filterMapM {f : α → StateT σ (Except ε) (Option γ)}
    {g : β → StateT σ (Except ε) (Option δ)} {l : List α} {l' : List β}
    (h : List.Forall₂ (fun a b => Mirrors (Option.Rel S) (f a) (g b)) l l') :
    Mirrors (List.Forall₂ S) (l.filterMapM f) (l'.filterMapM g) := by
  induction h with
  | nil => exact pure .nil
  | cons hab _ ih =>
      rw [List.filterMapM_cons, List.filterMapM_cons]
      refine hab.bind fun o o' ho => ?_
      cases ho with
      | none => exact ih
      | some hcd => exact ih.bind fun r r' hr => pure (.cons hcd hr)

/-- Two folds from one start, whose steps mirror each other. -/
theorem foldlM {f : γ → α → StateT σ (Except ε) γ} {g : γ → β → StateT σ (Except ε) γ}
    {l : List α} {l' : List β} (h : List.Forall₂ (fun a b => ∀ c, Mirrors Eq (f c a) (g c b)) l l')
    (c : γ) : Mirrors Eq (l.foldlM f c) (l'.foldlM g c) := by
  induction h generalizing c with
  | nil => exact refl _
  | cons hab _ ih =>
      rw [List.foldlM_cons, List.foldlM_cons]
      refine (hab c).bind fun d e hde => ?_
      subst hde
      exact ih d

end Mirrors

end ApiForge
