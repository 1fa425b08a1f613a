import Mathlib.Order.Bounds.Basic
import Mathlib.Order.Monotone.Basic
import Mathlib.Algebra.Order.Ring.Nat

/-!
# Bisection

A search for the largest number whose cost is within a bound keeps two ends, one of them within the
bound and the other one beyond it, and halves the distance between them until they are neighbours.
A search for the least number that passes a test is the same with the test in place of the bound; it
starts from ends of which nothing is known yet.
-/

namespace LkChain.Foundation.Bisection

variable {cost : ℕ → ℕ} {bound low high : ℕ}

/-- The cost of the lower end is within the bound, that of the upper end is not. -/
structure Bracket (cost : ℕ → ℕ) (bound low high : ℕ) : Prop where
  within : cost low ≤ bound
  beyond : bound < cost high

theorem Bracket.lt (hcost : StrictMono cost) (hbracket : Bracket cost bound low high) :
    low < high :=
  hcost.lt_iff_lt.mp (hbracket.within.trans_lt hbracket.beyond)

/-- The lower end of neighbours is the largest number within the bound. -/
theorem Bracket.isGreatest (hcost : StrictMono cost) (hbracket : Bracket cost bound low high)
    (hadjacent : high ≤ low + 1) : IsGreatest {number | cost number ≤ bound} low := by
  refine ⟨hbracket.within, fun number hnumber ↦ ?_⟩
  have hlt : number < high := hcost.lt_iff_lt.mp (lt_of_le_of_lt hnumber hbracket.beyond)
  exact Nat.le_of_lt_succ (hlt.trans_le hadjacent)

theorem isGreatest_of_eq (hcost : StrictMono cost) {number : ℕ} (hexact : cost number = bound) :
    IsGreatest {number | cost number ≤ bound} number := by
  refine ⟨hexact.le, fun other hother ↦ ?_⟩
  exact hcost.le_iff_le.mp (hexact ▸ hother)

/-- Both halves of an interval are at most half as wide, up to rounding. -/
theorem halves_le {steps : ℕ} (hwidth : high - low ≤ 2 ^ (steps + 1)) :
    (low + high) / 2 - low ≤ 2 ^ steps ∧ high - (low + high) / 2 ≤ 2 ^ steps := by
  rw [pow_succ] at hwidth
  omega

/-! ## A test -/

section Test

variable {test : ℕ → Bool} {floor ceiling middle : ℕ}

/-- No number from the floor up to the lower end passes, and the upper end does unless it is still
the ceiling. -/
structure Narrowed (test : ℕ → Bool) (floor ceiling low high : ℕ) : Prop where
  lower : ∀ number, floor < number → number ≤ low → test number = false
  upper : high = ceiling ∨ test high = true
  floor_le : floor ≤ low
  lt : low < high
  le : high ≤ ceiling

theorem narrowed_start (test : ℕ → Bool) (hlt : floor < ceiling) :
    Narrowed test floor ceiling floor ceiling where
  lower _ habove hbelow := absurd habove (not_lt.mpr hbelow)
  upper := .inl rfl
  floor_le := le_rfl
  lt := hlt
  le := le_rfl

theorem Narrowed.raise (hnarrowed : Narrowed test floor ceiling low high) (hmono : Monotone test)
    (hlow : low ≤ middle) (hhigh : middle < high) (hfails : test middle = false) :
    Narrowed test floor ceiling middle high where
  lower _ _ hle := Bool.eq_false_of_le_false (hfails ▸ hmono hle)
  upper := hnarrowed.upper
  floor_le := hnarrowed.floor_le.trans hlow
  lt := hhigh
  le := hnarrowed.le

theorem Narrowed.reduce (hnarrowed : Narrowed test floor ceiling low high)
    (hlow : low < middle) (hhigh : middle < high) (hpasses : test middle = true) :
    Narrowed test floor ceiling low middle where
  lower := hnarrowed.lower
  upper := .inr hpasses
  floor_le := hnarrowed.floor_le
  lt := hlow
  le := hhigh.le.trans hnarrowed.le

/-- The upper end of neighbours is the least number above the floor that passes, if it passes. -/
theorem Narrowed.isLeast (hnarrowed : Narrowed test floor ceiling low high)
    (hadjacent : high ≤ low + 1) (hpasses : test high = true) :
    IsLeast {number | floor < number ∧ test number = true} high := by
  refine ⟨⟨hnarrowed.floor_le.trans_lt hnarrowed.lt, hpasses⟩, fun number hnumber ↦ ?_⟩
  by_contra hless
  have hfails := hnarrowed.lower number hnumber.1 (by omega)
  rw [hnumber.2] at hfails
  cases hfails

end Test

end LkChain.Foundation.Bisection
