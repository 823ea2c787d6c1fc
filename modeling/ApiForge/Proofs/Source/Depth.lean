import ApiForge.Source.Step
import Mathlib.Data.List.Basic
/-!
The depth of generated source.

Every step is written at the depth that the steps before it have left. Steps
that leave as many blocks as they enter (`Balanced`) leave the depth as it was.
So what comes behind them is written as if they were not there, and the text of
source is put together from the texts of its balanced parts (`text_append`).
-/

namespace ApiForge.Source

namespace Step

/-- The depth that a list of steps leaves. -/
def depthAfter (depth : Nat) : List Step → Nat
  | [] => depth
  | s :: rest => depthAfter (s.write depth).2 rest

/-- Steps that leave the depth as it was. -/
def Balanced (steps : List Step) : Prop :=
  ∀ depth, depthAfter depth steps = depth

section

variable (depth : Nat) (text : String) (steps rest : List Step)

@[simp] theorem depthAfter_nil : depthAfter depth [] = depth := rfl

@[simp] theorem depthAfter_line :
    depthAfter depth (.line text :: rest) = depthAfter depth rest := rfl

@[simp] theorem depthAfter_blank :
    depthAfter depth (.blank :: rest) = depthAfter depth rest := rfl

@[simp] theorem depthAfter_enter :
    depthAfter depth (.enter text :: rest) = depthAfter (depth + 1) rest := rfl

@[simp] theorem depthAfter_leave :
    depthAfter (depth + 1) (.leave text :: rest) = depthAfter depth rest := rfl

@[simp] theorem depthAfter_doc (text : Option String) :
    depthAfter depth (.doc text :: rest) = depthAfter depth rest := by
  cases text <;> rfl

@[simp] theorem depthAfter_append :
    depthAfter depth (steps ++ rest)
      = depthAfter (depthAfter depth steps) rest := by
  induction steps generalizing depth with
  | nil => rfl
  | cons s steps ih => exact ih _

end

variable {α : Type} {l : List α}

/-- Parts that each end at the depth where they began do so together. -/
theorem Balanced.flatMap {f : α → List Step} (h : ∀ a ∈ l, Balanced (f a)) :
    Balanced (l.flatMap f) := by
  intro depth
  induction l with
  | nil => rfl
  | cons a l ih =>
      rw [List.flatMap_cons, depthAfter_append, h a (List.mem_cons_self ..)]
      exact ih fun b hb => h b (List.mem_cons_of_mem _ hb)

/-- Lines are written at the depth at which they stand. -/
theorem Balanced.lines (text : α → String) :
    Balanced (l.map fun a => .line (text a)) := by
  intro depth
  induction l with
  | nil => rfl
  | cons a l ih => exact ih

theorem pieces_append (depth : Nat) (steps rest : List Step) :
    pieces depth (steps ++ rest)
      = pieces depth steps ++ pieces (depthAfter depth steps) rest := by
  induction steps generalizing depth with
  | nil => rfl
  | cons s steps ih => exact congrArg (_ :: ·) (ih _)

end Step

/-- What comes behind balanced steps is written as if they were not there. -/
theorem text_append {steps : List Step} (h : Step.Balanced steps)
    (rest : List Step) : text (steps ++ rest) = text steps ++ text rest := by
  rw [text, Step.pieces_append, h, String.join_append]
  rfl

end ApiForge.Source
