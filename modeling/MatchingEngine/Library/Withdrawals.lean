import Mathlib

/-! Withdrawals that stop at zero. An amount goes through a list of them, some of which are skipped;
a skipped one does not even lift a negative amount to zero. -/
namespace MatchingEngine.Library

variable {α : Type*} [Field α] [LinearOrder α] [IsStrictOrderedRing α]

/-- One withdrawal, unless it is skipped. -/
def withdraw (x : α) : Option α → α
  | none => x
  | some d => max (x - d) 0

def withdrawAll (os : List (Option α)) (x : α) : α := os.foldl withdraw x

/-- The highest of `x` and of what the first few withdrawals take together, at least one of them. -/
def highWater (x : α) : List α → α
  | [] => x
  | d :: ds => max x (d + highWater 0 ds)

/-- The amount is lifted to the high water, and then loses all. -/
lemma withdrawAll_some (ds : List α) (x : α) : withdrawAll (ds.map some) x = highWater x ds - ds.sum := by
  induction ds generalizing x with
  | nil => simp [withdrawAll, highWater]
  | cons d ds ih =>
    have hstep : withdrawAll ((d :: ds).map some) x = withdrawAll (ds.map some) (max (x - d) 0) := rfl
    have hlift : ∀ y : α, 0 ≤ y → highWater y ds = max y (highWater 0 ds) := by
      intro y hy
      cases ds with
      | nil => simp [highWater, hy]
      | cons e es => simp only [highWater, ← max_assoc, max_eq_left hy]
    have hwater : 0 ≤ highWater 0 ds := by
      cases ds with
      | nil => exact le_rfl
      | cons e es => exact le_max_left _ _
    have hshift : max x (d + highWater 0 ds) - d = max (x - d) (highWater 0 ds) := by
      rw [← max_sub_sub_right, add_sub_cancel_left]
    rw [hstep, ih, hlift _ (le_max_right _ _), max_assoc, max_eq_right hwater, List.sum_cons, highWater, ← sub_sub, hshift]

omit [IsStrictOrderedRing α] in
/-- Skipped withdrawals take no part. -/
lemma withdrawAll_reduceOption (os : List (Option α)) (x : α) : withdrawAll os x = withdrawAll (os.reduceOption.map some) x := by
  induction os generalizing x with
  | nil => rfl
  | cons o os ih =>
    cases o with
    | none =>
      rw [List.reduceOption_cons_of_none]
      exact ih x
    | some d =>
      rw [List.reduceOption_cons_of_some]
      exact ih _

/-- Withdrawals that give nothing back take most in the end. -/
lemma highWater_of_nonneg {ds : List α} (h : ∀ d ∈ ds, 0 ≤ d) (hne : ds ≠ []) (x : α) : highWater x ds = max x ds.sum := by
  induction ds generalizing x with
  | nil => exact absurd rfl hne
  | cons d ds ih =>
    have hds : ∀ e ∈ ds, 0 ≤ e := fun e he => h e (by simp [he])
    cases ds with
    | nil => simp [highWater]
    | cons e es => rw [highWater, ih hds (by simp), max_eq_right (List.sum_nonneg hds), List.sum_cons (a := d)]

end MatchingEngine.Library
