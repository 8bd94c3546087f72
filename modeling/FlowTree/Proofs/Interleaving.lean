import Mathlib.Logic.Function.Basic

/-!
# Interleavings

Several parties take turns at something that they have in common. In a turn one of them makes its
next step, which may change its own state and the common one, and nothing happens between the parts
of a step. A schedule says whose turn it is, and what every turn keeps holds after all schedules.
-/

namespace FlowTree

structure Parties (ι τ σ : Type) where
  own : ι → τ
  common : σ

namespace Parties
variable {ι τ σ : Type} [DecidableEq ι] (step : ι → τ → σ → τ × σ)

def turn (s : Parties ι τ σ) (i : ι) : Parties ι τ σ where
  own := Function.update s.own i (step i (s.own i) s.common).1
  common := (step i (s.own i) s.common).2

/-- What is reached when the parties take turns in this order. -/
def play (schedule : List ι) (s : Parties ι τ σ) : Parties ι τ σ :=
  schedule.foldl (turn step) s

variable {step} {s : Parties ι τ σ} {i j : ι}

@[simp]
theorem common_turn : (turn step s i).common = (step i (s.own i) s.common).2 := rfl

@[simp]
theorem own_turn_self : (turn step s i).own i = (step i (s.own i) s.common).1 :=
  Function.update_self ..

theorem own_turn_of_ne (h : j ≠ i) : (turn step s i).own j = s.own j :=
  Function.update_of_ne h ..

theorem play_cons (schedule : List ι) :
    play step (i :: schedule) s = play step schedule (turn step s i) := rfl

theorem play_append (schedule schedule' : List ι) :
    play step (schedule ++ schedule') s = play step schedule' (play step schedule s) :=
  List.foldl_append

/-- What each turn keeps is kept by all of them. -/
theorem play_keeps {P : Parties ι τ σ → Prop} (hturn : ∀ s i, P s → P (turn step s i))
    (schedule : List ι) (hs : P s) : P (play step schedule s) := by
  induction schedule generalizing s with
  | nil => exact hs
  | cons i schedule ih => exact ih (hturn s i hs)

end Parties

/-- Where one party of a list takes a step, it is counted by itself. -/
theorem countP_act {α : Type} (p : α → Bool) (before after : List α) (a : α) :
    (before ++ a :: after).countP p = before.countP p + after.countP p + (p a).toNat := by
  rw [List.countP_append, List.countP_cons, Nat.add_assoc]
  cases p a <;> rfl

end FlowTree
