import Mathlib.Data.List.Induction
import Mathlib.Algebra.BigOperators.Group.List.Basic
import Mathlib.Algebra.Order.Ring.Nat

/-!
# Tables bounded by a total weight

A table that holds its newest entry first and evicts its oldest until the weights fit a limit keeps
the longest prefix that fits, `fit limit`; resizing and inserting are instances.
-/

namespace HttpJet.Library.FittingPrefix

open List

variable {α : Type*} (weight : α → Nat)
variable {limit : Nat} {entries : List α}

/-- The sum of the weights of the entries. -/
def total (entries : List α) : Nat := (entries.map weight).sum

@[simp]
theorem total_nil : total weight [] = 0 := rfl

@[simp]
theorem total_cons (x : α) (xs : List α) : total weight (x :: xs) = weight x + total weight xs := by
  simp [total]

@[simp]
theorem total_append (xs ys : List α) :
    total weight (xs ++ ys) = total weight xs + total weight ys := by
  simp [total]

/-- The longest prefix whose total weight is at most `limit`. -/
def fit : Nat → List α → List α
  | _, [] => []
  | limit, x :: xs => if weight x ≤ limit then x :: fit (limit - weight x) xs else []

@[simp]
theorem fit_nil (limit : Nat) : fit weight limit [] = [] := rfl

theorem fit_cons_of_le {x : α} (fits : weight x ≤ limit) (xs : List α) :
    fit weight limit (x :: xs) = x :: fit weight (limit - weight x) xs := by
  rw [fit, if_pos fits]

theorem fit_cons_of_lt {x : α} (heavy : limit < weight x) (xs : List α) :
    fit weight limit (x :: xs) = [] := by
  rw [fit, if_neg (Nat.not_le.mpr heavy)]

theorem fit_prefix (limit : Nat) (entries : List α) : fit weight limit entries <+: entries := by
  induction entries generalizing limit with
  | nil => exact prefix_rfl
  | cons _ _ ih =>
    rw [fit]
    split
    · exact cons_prefix_cons.mpr ⟨rfl, ih _⟩
    · exact nil_prefix

theorem total_fit_le (limit : Nat) (entries : List α) :
    total weight (fit weight limit entries) ≤ limit := by
  induction entries generalizing limit with
  | nil => exact Nat.zero_le _
  | cons x _ ih =>
    rw [fit]
    split
    · have rest := ih (limit - weight x)
      rw [total_cons]
      omega
    · exact Nat.zero_le _

theorem fit_eq_self (fits : total weight entries ≤ limit) : fit weight limit entries = entries := by
  induction entries generalizing limit with
  | nil => rfl
  | cons _ _ ih =>
    rw [total_cons] at fits
    rw [fit_cons_of_le weight (by omega), ih (by omega)]

/-- Evicting the oldest entry of a table that is too heavy loses nothing that fits. -/
theorem fit_concat {last : α} (heavy : limit < total weight (entries ++ [last])) :
    fit weight limit (entries ++ [last]) = fit weight limit entries := by
  induction entries generalizing limit with
  | nil =>
    rw [nil_append, fit_cons_of_lt weight heavy, fit_nil]
  | cons x _ ih =>
    by_cases fits : weight x ≤ limit
    · rw [cons_append, total_cons] at heavy
      rw [cons_append, fit_cons_of_le weight fits, fit_cons_of_le weight fits, ih (by omega)]
    · rw [cons_append, fit_cons_of_lt weight (by omega), fit_cons_of_lt weight (by omega)]

theorem fit_fit {small large : Nat} (le : small ≤ large) (entries : List α) :
    fit weight small (fit weight large entries) = fit weight small entries := by
  induction entries generalizing small large with
  | nil => rfl
  | cons x xs ih =>
    by_cases fits : weight x ≤ small
    · rw [fit_cons_of_le weight (Nat.le_trans fits le), fit_cons_of_le weight fits,
        fit_cons_of_le weight fits, ih (by omega)]
    · have heavy : small < weight x := Nat.not_le.mp fits
      rw [fit_cons_of_lt weight heavy xs]
      by_cases fitsLarge : weight x ≤ large
      · rw [fit_cons_of_le weight fitsLarge, fit_cons_of_lt weight heavy]
      · rw [fit_cons_of_lt weight (Nat.not_le.mp fitsLarge), fit_nil]

/-- Inserting into a fitted table is inserting into the whole history. -/
theorem fit_cons_fit {small large : Nat} (le : small ≤ large) (x : α) (entries : List α) :
    fit weight small (x :: fit weight large entries) = fit weight small (x :: entries) := by
  by_cases fits : weight x ≤ small
  · rw [fit_cons_of_le weight fits, fit_cons_of_le weight fits, fit_fit weight (by omega)]
  · rw [fit_cons_of_lt weight (by omega), fit_cons_of_lt weight (by omega)]

theorem total_eq_zero (positive : ∀ x, 0 < weight x) (zero : total weight entries = 0) :
    entries = [] := by
  cases entries with
  | nil => rfl
  | cons x =>
    have heavy := positive x
    rw [total_cons] at zero
    omega

/-- A table with entries of weight at least `unit` has at most `limit / unit` of them. -/
theorem length_mul_le_total {unit : Nat} (heavy : ∀ x, unit ≤ weight x) (entries : List α) :
    entries.length * unit ≤ total weight entries := by
  induction entries with
  | nil => simp
  | cons x =>
    have first := heavy x
    rw [length_cons, Nat.succ_mul, total_cons]
    omega

end HttpJet.Library.FittingPrefix
