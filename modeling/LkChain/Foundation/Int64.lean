import Mathlib.Algebra.BigOperators.Group.List.Basic
import Mathlib.Algebra.Order.BigOperators.Group.List
import Mathlib.Algebra.Order.Ring.Int
import Mathlib.Data.Int.Basic

/-!
# Sums on signed 64-bit words

A loop that adds non-negative amounts in a signed 64-bit word wraps around silently. The two loop
shapes used by programs are `accumulate`, which adds everything up, and `reaches`, which stops at
the first partial sum that is at least some bound. As long as no addition leaves the range, both
decide the same question about the integer sum.
-/

namespace LkChain.Foundation.Int64

/-- The signed reading of the low 64 bits. -/
def wrap (x : ℤ) : ℤ := x.bmod (2 ^ 64)

theorem wrap_of_fits {x : ℤ} (hlow : -2 ^ 63 ≤ x) (hhigh : x < 2 ^ 63) : wrap x = x := by
  unfold wrap
  rw [Int.bmod_def]
  split <;> omega

/-- The sum of a list, every addition taken modulo `2 ^ 64`. -/
def accumulate (acc : ℤ) : List ℤ → ℤ
  | [] => acc
  | x :: xs => accumulate (wrap (acc + x)) xs

/-- Whether some non-empty partial sum, computed modulo `2 ^ 64`, is at least `bound`. -/
def reaches (bound acc : ℤ) : List ℤ → Bool
  | [] => false
  | x :: xs => decide (bound ≤ wrap (acc + x)) || reaches bound (wrap (acc + x)) xs

section Sums

variable {bound acc : ℤ} {xs : List ℤ}

theorem accumulate_eq (hnonneg : ∀ x ∈ xs, 0 ≤ x) (hacc : 0 ≤ acc)
    (hfits : acc + xs.sum < 2 ^ 63) : accumulate acc xs = acc + xs.sum := by
  induction xs generalizing acc with
  | nil => simp [accumulate]
  | cons x xs ih =>
    have hx : 0 ≤ x := hnonneg x List.mem_cons_self
    have htail : ∀ y ∈ xs, 0 ≤ y := fun y hy ↦ hnonneg y (List.mem_cons_of_mem x hy)
    have hsum : 0 ≤ xs.sum := List.sum_nonneg htail
    rw [List.sum_cons] at hfits ⊢
    have hstep : wrap (acc + x) = acc + x := wrap_of_fits (by omega) (by omega)
    calc accumulate acc (x :: xs) = accumulate (acc + x) xs := by rw [accumulate, hstep]
      _ = acc + x + xs.sum := ih htail (by omega) (by omega)
      _ = acc + (x + xs.sum) := add_assoc acc x xs.sum

theorem wrap_wrap_add (x y : ℤ) : wrap (wrap x + y) = wrap (x + y) := by
  unfold wrap
  exact Int.bmod_add_bmod

theorem accumulate_wrap (x : ℤ) (xs : List ℤ) :
    accumulate (wrap x) xs = wrap (x + xs.sum) := by
  induction xs generalizing x with
  | nil => rw [List.sum_nil, add_zero, accumulate]
  | cons y xs ih => rw [accumulate, wrap_wrap_add, ih, List.sum_cons, add_assoc]

/-- A sum in which every addition wraps is the sum, wrapped once. -/
theorem accumulate_zero (xs : List ℤ) : accumulate 0 xs = wrap xs.sum := by
  have hzero : wrap 0 = 0 := rfl
  have hwrap := accumulate_wrap 0 xs
  rwa [hzero, zero_add] at hwrap

theorem not_reaches_of_sum_lt (hnonneg : ∀ x ∈ xs, 0 ≤ x) (hacc : 0 ≤ acc)
    (hsum : acc + xs.sum < bound) (hbound : bound ≤ 2 ^ 63) : reaches bound acc xs = false := by
  induction xs generalizing acc with
  | nil => rfl
  | cons x xs ih =>
    have hx : 0 ≤ x := hnonneg x List.mem_cons_self
    have htail : ∀ y ∈ xs, 0 ≤ y := fun y hy ↦ hnonneg y (List.mem_cons_of_mem x hy)
    have hrest : 0 ≤ xs.sum := List.sum_nonneg htail
    rw [List.sum_cons] at hsum
    have hstep : wrap (acc + x) = acc + x := wrap_of_fits (by omega) (by omega)
    rw [reaches, hstep, ih htail (by omega) (by omega)]
    simp only [Bool.or_false, decide_eq_false_iff_not]
    omega

theorem reaches_of_le_sum (hnonempty : xs ≠ []) (hnonneg : ∀ x ∈ xs, 0 ≤ x) (hacc : 0 ≤ acc)
    (hfits : acc + xs.sum < 2 ^ 63) (hsum : bound ≤ acc + xs.sum) :
    reaches bound acc xs = true := by
  induction xs generalizing acc with
  | nil => exact absurd rfl hnonempty
  | cons x xs ih =>
    have hx : 0 ≤ x := hnonneg x List.mem_cons_self
    have htail : ∀ y ∈ xs, 0 ≤ y := fun y hy ↦ hnonneg y (List.mem_cons_of_mem x hy)
    have hrest : 0 ≤ xs.sum := List.sum_nonneg htail
    rw [List.sum_cons] at hfits hsum
    have hstep : wrap (acc + x) = acc + x := wrap_of_fits (by omega) (by omega)
    rw [reaches, hstep, Bool.or_eq_true, decide_eq_true_iff]
    by_cases hstop : bound ≤ acc + x
    · exact Or.inl hstop
    · right
      apply ih _ htail (by omega) (by omega) (by omega)
      intro hempty
      rw [hempty, List.sum_nil] at hsum
      omega

/-- A loop that stops at the bound decides whether the whole sum reaches it, even when the whole
sum does not fit: each single addition from below the bound does. -/
theorem reaches_iff (hnonneg : ∀ x ∈ xs, 0 ≤ x) (hroom : ∀ x ∈ xs, bound + x ≤ 2 ^ 63)
    (hacc : 0 ≤ acc) (hbelow : acc < bound) :
    reaches bound acc xs = true ↔ bound ≤ acc + xs.sum := by
  induction xs generalizing acc with
  | nil => simp [reaches, hbelow]
  | cons x xs ih =>
    have hx : 0 ≤ x := hnonneg x List.mem_cons_self
    have hxroom : bound + x ≤ 2 ^ 63 := hroom x List.mem_cons_self
    have htail : ∀ y ∈ xs, 0 ≤ y := fun y hy ↦ hnonneg y (List.mem_cons_of_mem x hy)
    have hrest : 0 ≤ xs.sum := List.sum_nonneg htail
    have hstep : wrap (acc + x) = acc + x := wrap_of_fits (by omega) (by omega)
    rw [reaches, hstep, List.sum_cons, Bool.or_eq_true, decide_eq_true_iff]
    by_cases hstop : bound ≤ acc + x
    · simp only [hstop, true_or, true_iff]
      omega
    · rw [ih htail (fun y hy ↦ hroom y (List.mem_cons_of_mem x hy)) (by omega) (by omega)]
      simp only [hstop, false_or, add_assoc]

end Sums

end LkChain.Foundation.Int64
