import LkChain.Ethereum.Transactions
import LkChain.Foundation.Bisection
import Mathlib.Algebra.Order.Floor.Div
import Mathlib.Data.Nat.Log

/-!
# The proportional fee

`CalNewFee` is a fixed amount of gas for every `lianke` that is begun, between a minimum and a
maximum. `CalSweepBalanceFee` looks for the largest amount that a balance pays together with its own
fee, by bisection.
-/

namespace LkChain.Ethereum.Fees

open Foundation Transactions

/-! ## The fee -/

theorem calNewFee_eq (value : ℕ) :
    calNewFee value = min (5 * 10 ^ 9) (max (5 * 10 ^ 5) (5 * 10 ^ 4 * (value ⌈/⌉ 10 ^ 18))) := by
  have hlianke : gasPrice * gasToLiankeRate = 10 ^ 18 := by decide
  have hceil : (if value % 10 ^ 18 % 2 ^ 64 ≠ 0 then value / 10 ^ 18 + 1 else value / 10 ^ 18) =
      value ⌈/⌉ 10 ^ 18 := by
    rw [Nat.ceilDiv_eq_add_pred_div]
    split_ifs with hrest
    · omega
    · omega
  have hmin : ∀ fee, (if fee < minGasLimit then minGasLimit else fee) = max (5 * 10 ^ 5) fee := by
    intro fee
    unfold minGasLimit
    split_ifs
    · omega
    · omega
  have hmax : ∀ fee, (if maxGasLimit ≠ 0 ∧ maxGasLimit < fee then maxGasLimit else fee) =
      min (5 * 10 ^ 9) fee := by
    intro fee
    unfold maxGasLimit
    split_ifs
    · omega
    · omega
  unfold calNewFee
  dsimp only
  rw [hlianke, hceil, hmin, hmax]
  apply Nat.mod_eq_of_lt
  exact (min_le_left _ _).trans_lt (by decide)

theorem calNewFee_mono : Monotone calNewFee := by
  intro value other hle
  rw [calNewFee_eq, calNewFee_eq, Nat.ceilDiv_eq_add_pred_div, Nat.ceilDiv_eq_add_pred_div]
  gcongr

/-- What it takes to send an amount. -/
def cost (amount : ℕ) : ℕ := amount + 10 ^ 11 * calNewFee amount

theorem cost_strictMono : StrictMono cost := by
  intro amount other hlt
  exact add_lt_add_of_lt_of_le hlt (Nat.mul_le_mul_left _ (calNewFee_mono hlt.le))

/-! ## The largest amount -/

section Program

variable (balance : ℤ)

/-- `calAllFee`, within a number of calls. -/
def calAllFee : ℕ → ℕ → ℕ → ℕ → Option (ℕ × ℤ × ℕ)
  | 0, _, _, _ => none
  | fuel + 1, amount, min, max =>
    let fee := calNewFee amount
    let gasUsed := gasPrice * fee
    let newBalance := amount + gasUsed
    let changeAmount := balance - newBalance
    if max ≤ min ∨ amount = min then some (amount, changeAmount, fee)
    else if changeAmount = 0 then some (amount, changeAmount, fee)
    else if 0 < changeAmount then calAllFee fuel ((amount + max) / 2) amount max
    else calAllFee fuel ((amount + min) / 2) min amount

/-- `CalSweepBalanceFee`: the amount, the change, the fee and the error. -/
def calSweepBalanceFee (fuel : ℕ) : Option (ℕ × ℤ × ℕ × Option String) :=
  let minGasUsed := gasPrice * minGasLimit
  if balance ≤ minGasUsed then some (0, 0, 0, some "balance too low")
  else
    (calAllFee balance fuel balance.toNat 0 balance.toNat).map fun (amount, changeAmount, fee) ↦
      (amount, changeAmount, fee, none)

end Program

section Search

variable {balance : ℕ}

/-- The result for an amount. -/
def paid (balance amount : ℕ) : ℕ × ℤ × ℕ :=
  (amount, (balance : ℤ) - (cost amount : ℤ), calNewFee amount)

theorem calAllFee_succ (fuel amount min max : ℕ) :
    calAllFee balance (fuel + 1) amount min max =
      if max ≤ min ∨ amount = min ∨ cost amount = balance then some (paid balance amount)
      else if cost amount < balance then calAllFee balance fuel ((amount + max) / 2) amount max
      else calAllFee balance fuel ((min + amount) / 2) min amount := by
  have hcost : amount + gasPrice * calNewFee amount = cost amount := rfl
  have hzero : (balance : ℤ) - (cost amount : ℤ) = 0 ↔ cost amount = balance := by omega
  have hpos : 0 < (balance : ℤ) - (cost amount : ℤ) ↔ cost amount < balance := by omega
  rw [calAllFee, hcost, add_comm amount min]
  simp only [hzero, hpos, ← or_assoc (c := cost amount = balance)]
  by_cases hend : max ≤ min ∨ amount = min
  · rw [if_pos hend, if_pos (.inl hend)]
    rfl
  · by_cases hexact : cost amount = balance
    · rw [if_neg hend, if_pos hexact, if_pos (.inr hexact)]
      rfl
    · rw [if_neg hend, if_neg hexact, if_neg (not_or.mpr ⟨hend, hexact⟩)]

/-- A search from the middle of a bracket ends with the largest amount within the balance, after as
many halvings as the bracket is wide. -/
theorem calAllFee_of_bracket {steps fuel min max : ℕ}
    (hbracket : Bisection.Bracket cost balance min max) (hwidth : max - min ≤ 2 ^ steps)
    (hfuel : steps < fuel) :
    ∃ amount, IsGreatest {amount | cost amount ≤ balance} amount ∧
      calAllFee balance fuel ((min + max) / 2) min max = some (paid balance amount) := by
  have hlt := hbracket.lt cost_strictMono
  induction steps generalizing fuel min max with
  | zero =>
    obtain ⟨fuel, rfl⟩ := Nat.exists_eq_succ_of_ne_zero hfuel.ne_bot
    have hmiddle : (min + max) / 2 = min := by omega
    refine ⟨min, hbracket.isGreatest cost_strictMono (by omega), ?_⟩
    rw [hmiddle, calAllFee_succ, if_pos (.inr (.inl rfl))]
  | succ steps ih =>
    obtain ⟨fuel, rfl⟩ := Nat.exists_eq_succ_of_ne_zero (Nat.ne_zero_of_lt hfuel)
    obtain ⟨hlower, hupper⟩ := Bisection.halves_le hwidth
    rw [calAllFee_succ]
    generalize hmiddle : (min + max) / 2 = middle at *
    by_cases hadjacent : middle = min
    · refine ⟨min, hbracket.isGreatest cost_strictMono (by omega), ?_⟩
      rw [if_pos (.inr (.inl hadjacent)), hadjacent]
    · by_cases hexact : cost middle = balance
      · exact ⟨middle, Bisection.isGreatest_of_eq cost_strictMono hexact,
          if_pos (.inr (.inr hexact))⟩
      · rw [if_neg (by simp only [not_or]; exact ⟨not_le.mpr hlt, hadjacent, hexact⟩)]
        have hfuel' : steps < fuel := Nat.lt_of_succ_lt_succ hfuel
        -- the middle replaces the end on its own side of the balance
        split_ifs with hside
        · exact ih ⟨hside.le, hbracket.beyond⟩ hupper hfuel' (by omega)
        · exact ih ⟨hbracket.within, by omega⟩ hlower hfuel' (by omega)

theorem calAllFee_balance {fuel : ℕ} (hbalance : 5 * 10 ^ 16 < balance)
    (hfuel : Nat.clog 2 balance + 1 < fuel) :
    ∃ amount, IsGreatest {amount | cost amount ≤ balance} amount ∧
      calAllFee balance fuel balance 0 balance = some (paid balance amount) := by
  have hzero : cost 0 = 5 * 10 ^ 16 := by decide
  have hwhole : balance < cost balance := by
    have hmin : calNewFee 0 ≤ calNewFee balance := calNewFee_mono (Nat.zero_le balance)
    have hfee : calNewFee 0 = 5 * 10 ^ 5 := by decide
    unfold cost
    omega
  obtain ⟨fuel, rfl⟩ := Nat.exists_eq_succ_of_ne_zero (Nat.ne_zero_of_lt hfuel)
  rw [calAllFee_succ, if_neg (by omega), if_neg hwhole.not_gt]
  apply calAllFee_of_bracket ⟨by omega, hwhole⟩
  · exact Nat.le_pow_clog (by decide) balance
  · omega

end Search

/-- The sweep returns an error for a balance that does not exceed the smallest fee. For every other
one it returns, after a number of calls that is logarithmic in the balance, the largest amount that
the balance covers with its fee, that fee and what is left over. -/
theorem calSweepBalanceFee_isGreatest (balance : ℤ) :
    (balance ≤ 5 * 10 ^ 16 →
      ∀ fuel, calSweepBalanceFee balance fuel = some (0, 0, 0, some "balance too low")) ∧
    (5 * 10 ^ 16 < balance → ∃ amount change,
      (∀ fuel, Nat.clog 2 balance.toNat + 1 < fuel →
        calSweepBalanceFee balance fuel = some (amount, change, calNewFee amount, none)) ∧
      amount + 10 ^ 11 * calNewFee amount + change = balance ∧ 0 ≤ change ∧
      IsGreatest {a : ℕ | (a : ℤ) + 10 ^ 11 * calNewFee a ≤ balance} amount) := by
  have hmin : ((gasPrice * minGasLimit : ℕ) : ℤ) = 5 * 10 ^ 16 := by decide
  constructor
  · intro hlow fuel
    unfold calSweepBalanceFee
    dsimp only
    rw [hmin, if_pos hlow]
  · intro hhigh
    obtain ⟨balance, rfl⟩ := Int.eq_ofNat_of_zero_le (show 0 ≤ balance by omega)
    have hbalance : 5 * 10 ^ 16 < balance := by exact_mod_cast hhigh
    have hset : {a : ℕ | (a : ℤ) + 10 ^ 11 * calNewFee a ≤ balance} = {a | cost a ≤ balance} := by
      ext a
      simp only [cost, Set.mem_ofPred_eq]
      norm_cast
    rw [hset]
    obtain ⟨amount, hgreatest, -⟩ := calAllFee_balance hbalance (Nat.lt_succ_self _)
    have hwithin : cost amount ≤ balance := hgreatest.1
    refine ⟨amount, balance - (cost amount : ℤ), ?_, ?_, by omega, hgreatest⟩
    · intro fuel hfuel
      obtain ⟨found, hfound, hresult⟩ := calAllFee_balance hbalance hfuel
      rw [hfound.unique hgreatest] at hresult
      unfold calSweepBalanceFee
      dsimp only
      rw [hmin, if_neg (not_le.mpr hhigh), Int.toNat_natCast, hresult]
      rfl
    · unfold cost
      push_cast
      omega

/-- A balance of one unit more than the smallest fee sweeps that unit. -/
theorem calSweepBalanceFee_one : ∃ amount change,
    (∀ fuel, Nat.clog 2 (5 * 10 ^ 16 + 1 : ℤ).toNat + 1 < fuel →
      calSweepBalanceFee (5 * 10 ^ 16 + 1) fuel = some (amount, change, calNewFee amount, none)) ∧
    amount + 10 ^ 11 * calNewFee amount + change = (5 * 10 ^ 16 + 1 : ℤ) ∧ 0 ≤ change ∧
    IsGreatest {a : ℕ | (a : ℤ) + 10 ^ 11 * calNewFee a ≤ 5 * 10 ^ 16 + 1} amount :=
  (calSweepBalanceFee_isGreatest (5 * 10 ^ 16 + 1)).2 (by decide)

end LkChain.Ethereum.Fees
