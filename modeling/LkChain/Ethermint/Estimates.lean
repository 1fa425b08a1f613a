import LkChain.Ethereum.Estimation
import LkChain.Ethermint.Admission

/-!
# Estimates and admission

A wallet asks `EstimateGas` for the gas limit of a transaction, and `IllegalGasLimitOrGasPrice`
decides whether the transaction may enter the mempool. The two are written independently. An
estimate for an account without code is the limit that admission wants. For a call of code and for a
creation the estimate is the gas that works, whatever the payload, while admission wants the fixed
limit for every payload that is empty or a JSON object. Then the estimate is admitted only if the
least gas that works happens to be that limit.
-/

namespace LkChain.Ethermint.Estimates

open Ethereum State Transactions Calls Transition Estimation
open Admission

/-- The transaction that a wallet makes of the arguments and an estimate; nonce and signature are
those of `base`. -/
def sending (args : CallArgs) (gas : ℕ) (base : Transaction) : Transaction :=
  { base with
    price := 100000000000
    gasLimit := gas
    recipient := args.recipient
    amount := args.value
    payload := args.data }

/-- Whether the recipient has code. -/
def hashcode (state : StateDB) (args : CallArgs) : Bool :=
  args.recipient.any fun recipient ↦ 0 < state.getCodeSize recipient

/-- A limit is the least gas with which the call works. -/
def IsThreshold (env : Environment) (b : EthApiBackend) (state : StateDB) (args : CallArgs)
    (limit : ℕ) : Prop :=
  executable env b state args limit = true ∧ executable env b state args (limit - 1) = false

/-- Admission does not depend on the amount of the estimate: the recipient has no code, or the
payload is one of a contract, or under the new rule there is a recipient. -/
def Free (env : Environment) (b : EthApiBackend) (state : StateDB) (args : CallArgs) : Prop :=
  codeless state args = true ∨ isContract env.vm args.data = true ∨
    newFeeRule env b = true ∧ args.recipient ≠ none

/-- The limit that admission wants of a plain payload. -/
def wanted (env : Environment) (b : EthApiBackend) (args : CallArgs) : ℕ :=
  if newFeeRule env b then calNewFee args.value else 100000

variable {env : Environment} {b : EthApiBackend} {state : StateDB} {args : CallArgs} {gas fuel : ℕ}

theorem calNewFee_lt (value : ℕ) : calNewFee value < 2 ^ 64 := Nat.mod_lt _ (by decide)

/-- The new rule: the fee must be covered, and a plain payload pays exactly the fee. -/
theorem illegal_sending_new (vm : VM) (base : Transaction) (hash : Bool) (hgas : gas < 2 ^ 64) :
    illegalGasLimitOrGasPrice vm (sending args gas base) hash true = false ↔
      (0 < args.value → calNewFee args.value ≤ gas) ∧
        (isContract vm args.data = true ∧ args.recipient = none ∨ hash = true ∨
          calNewFee args.value = gas) := by
  simp only [illegalGasLimitOrGasPrice, sending, Nat.mod_eq_of_lt hgas, if_true, ne_eq, not_true,
    if_false]
  by_cases hunpaid : 0 < args.value ∧ gas < calNewFee args.value
  · rw [if_pos hunpaid]
    exact ⟨Bool.noConfusion, fun hpaid ↦ absurd hunpaid.2 (not_lt.mpr (hpaid.1 hunpaid.1))⟩
  · rw [if_neg hunpaid]
    have hpaid : 0 < args.value → calNewFee args.value ≤ gas :=
      fun hvalue ↦ not_lt.mp fun hlt ↦ hunpaid ⟨hvalue, hlt⟩
    by_cases hcreates : isContract vm args.data = true ∧ args.recipient = none
    · rw [if_pos (by simpa using hcreates)]
      exact ⟨fun _ ↦ ⟨hpaid, .inl hcreates⟩, fun _ ↦ rfl⟩
    · rw [if_neg (by simpa using hcreates)]
      simp only [Bool.and_eq_false_iff, Bool.not_eq_false', bne_eq_false_iff_eq, hcreates,
        false_or]
      exact ⟨fun h ↦ ⟨hpaid, h⟩, And.right⟩

/-- The old rule: a plain payload has the fixed limit, and a payload for an account without code at
least that. -/
theorem illegal_sending_old (vm : VM) (base : Transaction) (hash : Bool) :
    illegalGasLimitOrGasPrice vm (sending args gas base) hash false = false ↔
      (isContract vm args.data = true ∨ gas = 100000) ∧
        (isContract vm args.data = true → args.recipient ≠ none → hash = false → 100000 ≤ gas) := by
  simp only [illegalGasLimitOrGasPrice, sending, ne_eq, not_true, if_false, Bool.false_eq_true]
  by_cases hcontract : isContract vm args.data = true
  · by_cases hrecipient : args.recipient = none
    · simp [hcontract, hrecipient]
    · cases hash with
      | true => simp [hcontract, hrecipient]
      | false =>
        simp only [hcontract, Bool.not_true, Bool.false_and, Bool.false_eq_true, if_false,
          Bool.true_and, Option.isNone_iff_eq_none, hrecipient, Bool.not_false, true_or, true_and,
          not_false_eq_true, forall_const]
        exact decide_eq_false_iff_not.trans not_lt
  · by_cases hgas : gas = 100000 <;> simp [hcontract, hgas]

theorem hashcode_of_code (hcode : codeless state args = false) :
    hashcode state args = true ↔ args.recipient ≠ none := by
  cases hrecipient : args.recipient with
  | none => simp [hashcode, hrecipient]
  | some recipient =>
    simp only [codeless, hashcode, hrecipient, Option.any_some, decide_eq_true_eq,
      decide_eq_false_iff_not] at hcode ⊢
    simp [Nat.pos_of_ne_zero hcode]

/-- What runs is not empty where admission or the recipient calls for code. -/
theorem feeCode_ne_nil (hcode : codeless state args = false)
    (hcase : isContract env.vm args.data = true ∨ args.recipient ≠ none) :
    feeCode state args.recipient args.data ≠ [] := by
  cases hrecipient : args.recipient with
  | none =>
    have hcontract := hcase.resolve_right (not_not.mpr hrecipient)
    simp only [isContract, Bool.and_eq_true, decide_eq_true_eq] at hcontract
    exact List.length_pos_iff.mp hcontract.1
  | some recipient =>
    simp only [codeless, hrecipient, Option.any_some, decide_eq_false_iff_not] at hcode
    exact fun hnil ↦ hcode (congrArg List.length hnil)

theorem fee_le_estimate (hcode : codeless state args = false)
    (hworks : executable env b state args gas = true) (hrule : newFeeRule env b = true)
    (hcase : isContract env.vm args.data = true ∨ args.recipient ≠ none)
    (hgas : gas ≠ 0 ∨ args.value = 0) : 0 < args.value → calNewFee args.value ≤ gas := by
  intro hpos
  exact calNewFee_le_of_executable (hgas.resolve_right hpos.ne') hworks hrule
    (feeCode_ne_nil hcode hcase) hpos

/-- Only a gas beyond `2 ^ 63` has an estimate below the price of a transaction. -/
theorem estimate_pos (hcode : codeless state args = false) (hgas : args.gas ≤ 2 ^ 63)
    (hestimate : estimateGas env b state args fuel = some (.ok gas)) : gas ≠ 0 := by
  rw [estimateGas, estimateWith_of_code hcode, Option.map_eq_some_iff] at hestimate
  obtain ⟨hi, hfound, hresult⟩ := hestimate
  have hle : ceiling args ≤ 2 ^ 63 := (ceiling_of_le hgas).trans_le (allowance_le hgas)
  have hlt := lt_of_search hle (floor_lt_ceiling args) hfound
  split_ifs at hresult
  cases hresult
  exact (Nat.zero_le _).trans_lt hlt |>.ne'

theorem estimate_of_codeless (base : Transaction) (hcode : codeless state args = true)
    (hestimate : estimateGas env b state args fuel = some (.ok gas)) :
    illegalGasLimitOrGasPrice env.vm (sending args gas base) (hashcode state args)
      (newFeeRule env b) = false := by
  rw [estimateGas, estimateWith_of_codeless hcode, Option.some_inj, Except.ok.injEq] at hestimate
  cases hrule : newFeeRule env b with
  | true =>
    rw [hrule, if_pos rfl] at hestimate
    rw [illegal_sending_new _ _ _ (hestimate ▸ calNewFee_lt _)]
    exact ⟨fun _ ↦ hestimate.le, .inr (.inr hestimate)⟩
  | false =>
    rw [hrule, if_neg Bool.false_ne_true] at hestimate
    rw [illegal_sending_old]
    exact ⟨.inr hestimate.symm, fun _ _ _ ↦ hestimate.le⟩

theorem estimate_of_free (base : Transaction) (hfree : Free env b state args)
    (hestimate : estimateGas env b state args fuel = some (.ok gas))
    (hgas : newFeeRule env b = true → codeless state args = false → gas ≠ 0 ∨ args.value = 0) :
    illegalGasLimitOrGasPrice env.vm (sending args gas base) (hashcode state args)
      (newFeeRule env b) = false := by
  cases hcode : codeless state args with
  | true => exact estimate_of_codeless base hcode hestimate
  | false =>
    obtain ⟨hworks, hlt⟩ := executable_of_estimateWith hcode hestimate
    have hhash := hashcode_of_code hcode
    have hfree := hfree.resolve_left (by rw [hcode]; exact Bool.false_ne_true)
    cases hrule : newFeeRule env b with
    | true =>
      have hcase := hfree.imp_right And.right
      rw [illegal_sending_new _ _ _ hlt, hhash]
      refine ⟨fee_le_estimate hcode hworks hrule hcase (hgas hrule hcode), ?_⟩
      by_cases hrecipient : args.recipient = none
      · exact .inl ⟨hcase.resolve_right (not_not.mpr hrecipient), hrecipient⟩
      · exact .inr (.inl hrecipient)
    | false =>
      rw [illegal_sending_old]
      refine ⟨.inl (hfree.resolve_right (by simp [hrule])), fun _ hrecipient hplain ↦ ?_⟩
      rw [hhash.mpr hrecipient] at hplain
      cases hplain

/-- Where the amount matters, an estimate is admitted exactly if it is what admission wants. -/
theorem estimate_of_not_free (base : Transaction) (hfree : ¬ Free env b state args)
    (hestimate : estimateGas env b state args fuel = some (.ok gas)) :
    illegalGasLimitOrGasPrice env.vm (sending args gas base) (hashcode state args)
      (newFeeRule env b) = false ↔ gas = wanted env b args := by
  obtain ⟨hcode, hplain, hrecipient⟩ := not_or.mp hfree |>.imp_right not_or.mp
  rw [Bool.not_eq_true] at hcode
  obtain ⟨-, hlt⟩ := executable_of_estimateWith hcode hestimate
  have hhash := hashcode_of_code hcode
  unfold wanted
  cases hrule : newFeeRule env b with
  | true =>
    have hnone : args.recipient = none := not_not.mp fun h ↦ hrecipient ⟨hrule, h⟩
    rw [illegal_sending_new _ _ _ hlt, hhash, if_pos rfl]
    constructor
    · rintro ⟨-, hcontract | hsome | hfee⟩
      · exact absurd hcontract.1 hplain
      · exact absurd hnone hsome
      · exact hfee.symm
    · exact fun hfee ↦ ⟨fun _ ↦ hfee.ge, .inr (.inr hfee.symm)⟩
  | false =>
    rw [illegal_sending_old, if_neg Bool.false_ne_true]
    exact ⟨fun h ↦ h.1.resolve_left hplain,
      fun h ↦ ⟨.inr h, fun hcontract ↦ absurd hcontract hplain⟩⟩

theorem txGas_lt_wanted : txGas < wanted env b args := by
  unfold wanted
  split_ifs
  · rw [Fees.calNewFee_eq]
    exact lt_min (by decide) (lt_max_of_lt_left (by decide))
  · decide

/-- If more gas does not hurt, the estimate is a limit exactly if that is the least gas that
works. -/
theorem estimate_eq_iff (hcode : codeless state args = false) (hgas : args.gas ≤ 2 ^ 63)
    (hmono : Monotone (executable env b state args))
    (hestimate : estimateGas env b state args fuel = some (.ok gas)) {limit : ℕ}
    (hlimit : txGas < limit) : gas = limit ↔ IsThreshold env b state args limit := by
  obtain ⟨⟨hpays, hworks⟩, hleast⟩ := (correct_of_le hcode hgas).minimal hmono hcode fuel gas
    hestimate
  constructor
  · rintro rfl
    refine ⟨hworks, Bool.not_eq_true _ ▸ fun hbelow ↦ ?_⟩
    have hle := hleast ⟨(by omega : txGas ≤ gas - 1), hbelow⟩
    omega
  · rintro ⟨hlimitWorks, hbelow⟩
    have hle : gas ≤ limit := hleast ⟨hlimit.le, hlimitWorks⟩
    by_contra hne
    have hworks' := hmono (by omega : gas ≤ limit - 1)
    rw [hworks, hbelow] at hworks'
    exact absurd hworks' (by decide)

/-- A state with a contract at address 7. -/
def sampleContract : StateDB :=
  StateDB.new fun observed ↦ if observed = 7 then some ⟨1, 0, [0], fun _ ↦ 0⟩ else none

/-- A call of the contract with the given payload. -/
def sampleCall (data : Bytes) : CallArgs := ⟨1, some 7, 25000, 0, 0, data, 0⟩

def sampleBackend : EthApiBackend := ⟨sampleHeader 9, none⟩

end LkChain.Ethermint.Estimates
