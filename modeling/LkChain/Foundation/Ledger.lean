import Mathlib.Algebra.BigOperators.Group.Finset.Basic
import Mathlib.Algebra.BigOperators.Ring.Finset
import Mathlib.Data.Fintype.BigOperators

/-!
# Balance sheets over a finite set of accounts

A balance sheet assigns an integer to every account. Crediting one account is the only elementary
operation; a debit is a credit of the negated amount and a transfer is a debit followed by a
credit. Credits act additively, so a sequence of them can be read off as one formula per account
even when some of the accounts coincide, and the total changes by exactly the credited amounts.
-/

open scoped BigOperators

namespace LkChain.Foundation.Ledger

variable {Account : Type} [DecidableEq Account]

/-- Add `amount` to one account and leave every other account alone. -/
def credit (sheet : Account → ℤ) (account : Account) (amount : ℤ) : Account → ℤ :=
  Function.update sheet account (sheet account + amount)

/-- The amount a single credit contributes at `observed`. -/
def share (account observed : Account) (amount : ℤ) : ℤ :=
  if observed = account then amount else 0

theorem credit_apply (sheet : Account → ℤ) (account observed : Account) (amount : ℤ) :
    credit sheet account amount observed = sheet observed + share account observed amount := by
  by_cases hsame : observed = account
  · subst hsame
    simp [credit, share]
  · simp [credit, share, hsame]

@[simp]
theorem share_self (account : Account) (amount : ℤ) : share account account amount = amount := by
  simp [share]

@[simp]
theorem share_zero (account observed : Account) : share account observed 0 = 0 := by
  simp [share]

theorem share_add (account observed : Account) (left right : ℤ) :
    share account observed (left + right) =
      share account observed left + share account observed right := by
  by_cases hsame : observed = account <;> simp [share, hsame]

theorem share_neg (account observed : Account) (amount : ℤ) :
    share account observed (-amount) = -share account observed amount := by
  by_cases hsame : observed = account <;> simp [share, hsame]

/-- The amount a transfer contributes at `observed`, also when both ends coincide. -/
def move (source target : Account) (amount : ℤ) (observed : Account) : ℤ :=
  share target observed amount - share source observed amount

theorem credit_credit_apply (sheet : Account → ℤ) (source target observed : Account) (amount : ℤ) :
    credit (credit sheet source (-amount)) target amount observed =
      sheet observed + move source target amount observed := by
  rw [credit_apply, credit_apply, share_neg, move]
  omega

section Total

variable [Fintype Account]

/-- The sum of all balances. -/
def total (sheet : Account → ℤ) : ℤ := ∑ account, sheet account

omit [DecidableEq Account] in
theorem total_add (left right : Account → ℤ) :
    total (fun observed ↦ left observed + right observed) = total left + total right :=
  Finset.sum_add_distrib

theorem total_share (account : Account) (amount : ℤ) :
    total (fun observed ↦ share account observed amount) = amount := by
  simp [total, share]

theorem total_move (source target : Account) (amount : ℤ) :
    total (move source target amount) = 0 := by
  have hsum : total (move source target amount) =
      total (fun observed ↦ share target observed amount) -
        total (fun observed ↦ share source observed amount) := Finset.sum_sub_distrib _ _
  rw [hsum, total_share, total_share, sub_self]

omit [DecidableEq Account] in
theorem total_clear (sheet : Account → ℤ) (cleared : Account → Bool) :
    total (fun observed ↦ if cleared observed then 0 else sheet observed) =
      total sheet - total (fun observed ↦ if cleared observed then sheet observed else 0) := by
  rw [eq_sub_iff_add_eq, ← total_add]
  refine Finset.sum_congr rfl fun observed _ ↦ ?_
  by_cases hcleared : cleared observed <;> simp [hcleared]

theorem total_credit (sheet : Account → ℤ) (account : Account) (amount : ℤ) :
    total (credit sheet account amount) = total sheet + amount := by
  have hpoint : credit sheet account amount =
      fun observed ↦ sheet observed + share account observed amount := by
    funext observed
    exact credit_apply sheet account observed amount
  rw [hpoint, total_add, total_share]

end Total

end LkChain.Foundation.Ledger
