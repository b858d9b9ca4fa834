import Mathlib

/-!
# Fronts within a budget

Items that are taken in their order, as long as the budget lasts: what is taken is within the budget,
and no longer front is
(`prefix_fit`).
-/

namespace NestifyClaw

variable {α : Type*} (cost : α → Nat)

/-- The longest front of the list whose cost is within the budget. -/
def fit (budget : Nat) : List α → List α
  | [] => []
  | a :: as => if cost a ≤ budget then a :: fit (budget - cost a) as else []

variable {cost} {budget : Nat} {as bs : List α}

theorem fit_front : fit cost budget as <+: as := by
  induction as generalizing budget with
  | nil => exact List.prefix_rfl
  | cons a as ih =>
      rw [fit]
      split
      · exact (List.prefix_cons_inj a).mpr ih
      · exact List.nil_prefix

theorem fit_within : ((fit cost budget as).map cost).sum ≤ budget := by
  induction as generalizing budget with
  | nil => exact Nat.zero_le _
  | cons a as ih =>
      rw [fit]
      split
      · rename_i fits
        have rest := @ih (budget - cost a)
        rw [List.map_cons, List.sum_cons]
        omega
      · exact Nat.zero_le _

/-- No front of the list that is within the budget is longer. -/
theorem prefix_fit (front : bs <+: as) (within : (bs.map cost).sum ≤ budget) :
    bs <+: fit cost budget as := by
  induction as generalizing budget bs with
  | nil => exact front
  | cons a as ih =>
      cases bs with
      | nil => exact List.nil_prefix
      | cons b bs =>
          obtain ⟨rfl, front'⟩ := List.cons_prefix_cons.mp front
          rw [List.map_cons, List.sum_cons] at within
          rw [fit, if_pos (by omega)]
          exact (List.prefix_cons_inj b).mpr (ih front' (by omega))

theorem length_fit_le {count : Nat} : (fit cost budget (as.take count)).length ≤ count :=
  Nat.le_trans fit_front.length_le (List.length_take_le _ _)

/-- Nothing is taken if the first item is too much. -/
theorem fit_take_nil {a : α} (count : Nat) (first : as.head? = some a) (tooMuch : budget < cost a) :
    fit cost budget (as.take count) = [] := by
  obtain ⟨as, rfl⟩ := List.head?_eq_some_iff.mp first
  cases count with
  | zero => rfl
  | succ count => exact if_neg (Nat.not_le_of_lt tooMuch)

theorem le_length_fit {n count : Nat} (few : n ≤ count) (there : n ≤ as.length)
    (within : ((as.take n).map cost).sum ≤ budget) :
    n ≤ (fit cost budget (as.take count)).length := by
  have long := (prefix_fit (List.take_prefix_take_left few) within).length_le
  rwa [List.length_take, Nat.min_eq_left there] at long

end NestifyClaw
