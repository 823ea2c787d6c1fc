import Mathlib.Data.Finset.Card
import Mathlib.Data.Finset.Dedup
import Mathlib.Data.Finset.Filter
import Mathlib.Logic.Relation
/-!
Relations without cycles.

A relation in which only members of a list point to anything has finitely many
places to leave, so following it ends from a place just when no cycle can be
reached from there (`acc_flip_iff`). The measure is the number of members that
can still be reached: a step loses the member that it leaves.
-/

namespace ApiForge

open Relation

variable {α : Type} {r : α → α → Prop} {l : List α}

/-- A place from which following a relation ends is not on a cycle. -/
theorem not_transGen_self_of_acc {a : α} (h : Acc (flip r) a) :
    ¬ TransGen r a a := by
  intro hcycle
  have hback : TransGen (flip r) a a := transGen_swap.1 hcycle
  induction h.transGen with
  | intro a _ ih => exact ih a hback (h.inv_of_transGen hback) hcycle hback

open Classical in
/-- The members of a list that a relation leads to. -/
noncomputable def reached (r : α → α → Prop) (l : List α) (a : α) : Finset α :=
  l.toFinset.filter (ReflTransGen r a ·)

open Classical in
theorem mem_reached {a b : α} :
    b ∈ reached r l a ↔ b ∈ l ∧ ReflTransGen r a b := by
  rw [reached, Finset.mem_filter, List.mem_toFinset]

/-- Without cycles, a step from a member leaves fewer members to reach. -/
theorem reached_ssubset {a b : α} (ha : a ∈ l) (hab : r a b)
    (h : ¬ TransGen r a a) : reached r l b ⊂ reached r l a := by
  have hsubset : reached r l b ⊆ reached r l a := by
    intro c hc
    obtain ⟨hc, hbc⟩ := mem_reached.1 hc
    exact mem_reached.2 ⟨hc, hbc.head hab⟩
  have hmem : a ∈ reached r l a := mem_reached.2 ⟨ha, .refl⟩
  have hlost : a ∉ reached r l b := by
    intro hback
    exact h (.head' hab (mem_reached.1 hback).2)
  exact Finset.ssubset_iff_subset_ne.2
    ⟨hsubset, fun heq => hlost (heq ▸ hmem)⟩

/-- Without cycles, following a relation ends from everywhere. -/
theorem wellFounded_flip (hl : ∀ a b, r a b → a ∈ l)
    (h : ∀ a, ¬ TransGen r a a) : WellFounded (flip r) :=
  Subrelation.wf
    (fun {_ a} hab => Finset.card_lt_card (reached_ssubset (hl a _ hab) hab (h a)))
    (measure fun a => (reached r l a).card).wf

/-- The steps of a relation that can be taken on the way from a place. -/
def StepFrom (r : α → α → Prop) (start a b : α) : Prop :=
  ReflTransGen r start a ∧ r a b

/-- Following a relation ends from a place just when no cycle can be reached
from there. -/
theorem acc_flip_iff (hl : ∀ a b, r a b → a ∈ l) {start : α} :
    Acc (flip r) start ↔ ∀ a, ReflTransGen r start a → ¬ TransGen r a a := by
  refine ⟨fun h a ha => ?_, fun h => ?_⟩
  · have hacc : Acc (flip r) a := by
      induction ha with
      | refl => exact h
      | tail _ hstep ih => exact ih.inv hstep
    exact not_transGen_self_of_acc hacc
  · have hcycle : ∀ a, ¬ TransGen (StepFrom r start) a a := by
      intro a ha
      obtain ⟨_, ⟨hfrom, -⟩, -⟩ := TransGen.head'_iff.1 ha
      exact h a hfrom (TransGen.mono (fun _ _ hstep => hstep.2) _ _ ha)
    have hwf := wellFounded_flip (fun a b hab => hl a b hab.2) hcycle
    have hacc : ∀ a, ReflTransGen r start a → Acc (flip r) a := by
      intro a
      induction hwf.apply a with
      | intro a _ ih =>
          intro ha
          exact .intro a fun b hab => ih b ⟨ha, hab⟩ (ha.tail hab)
    exact hacc start .refl

end ApiForge
