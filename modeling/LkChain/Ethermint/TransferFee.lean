import LkChain.Ethereum.Accounting
import LkChain.Ethereum.Fees
import LkChain.Ethermint.Admission

/-!
# The fee of a transfer

Admission asks a transaction without code at its recipient for a gas limit of exactly `CalNewFee` of
its value. Its execution runs no byte code, a precompiled contract at most, and `TransitionDb` takes
all of the gas. So the fee that the sender pays and the coinbase receives is the documented one.
-/

namespace LkChain.Ethermint.TransferFee

open Foundation
open Ethereum State Transactions Fees Calls Transition Outcomes Accounting
open Admission

/-! ## The amount -/

/-- The documented fee: a fixed amount for every `lianke` that is begun, between a minimum and a
maximum. -/
def documentedFee (value : ℕ) : ℕ :=
  10 ^ 11 * min (5 * 10 ^ 9) (max (5 * 10 ^ 5) (5 * 10 ^ 4 * (value ⌈/⌉ 10 ^ 18)))

theorem price_mul_calNewFee (value : ℕ) : 10 ^ 11 * calNewFee value = documentedFee value := by
  rw [calNewFee_eq]
  rfl

/-- What an admitted transaction to an account without code has set. -/
theorem gasLimit_of_legal {vm : VM} {tx : Transaction} (hrecipient : tx.recipient.isSome)
    (hlegal : illegalGasLimitOrGasPrice vm tx false true = false) :
    tx.price = 10 ^ 11 ∧ tx.gasLimit % 2 ^ 64 = calNewFee tx.amount := by
  have hnone : tx.recipient.isNone = false := by
    rw [← Option.not_isSome, hrecipient]
    rfl
  unfold illegalGasLimitOrGasPrice at hlegal
  dsimp only at hlegal
  by_cases hprice : tx.price = 100000000000
  · rw [if_neg (not_not.mpr hprice), if_pos rfl, hnone, Bool.and_false,
      if_neg Bool.false_ne_true] at hlegal
    split_ifs at hlegal
    have hsame : (calNewFee tx.amount != tx.gasLimit % 2 ^ 64) = false := hlegal
    exact ⟨hprice, (bne_eq_false_iff_eq.mp hsame).symm⟩
  · rw [if_pos hprice] at hlegal
    cases hlegal

/-! ## Calls without code -/

section Codeless

variable {evm : EVM} {state : StateDB} {caller address : Address} {input : Bytes} {gas value : ℕ}

theorem run_state_of_codeless {contract : Contract} (hcode : contract.code = []) :
    (run evm state contract input).state = state := by
  unfold run
  split
  next p _ =>
    unfold runPrecompiledContract
    dsimp only
    split_ifs
    · rfl
    · split
      next => rfl
      next => rfl
  next =>
    unfold interpreterRun
    rw [hcode]
    rfl

theorem frame_state_of_codeless (hcode : state.getCode address = []) :
    ((callFrame evm state caller address input gas value).run evm).state =
      transfer state caller address value :=
  run_state_of_codeless hcode

theorem callContract_standing_of_codeless (hcode : state.getCode address = []) :
    (callContract evm state state caller address input gas value).state.standing =
      state.standing := by
  have hend := callContract_end evm state state caller address input gas value
  generalize callContract evm state state caller address input gas value = ended at hend
  cases hend with
  | unpaid => rfl
  | returned result hfee hresult =>
    rw [← hresult, frame_state_of_codeless hcode, standing_transfer]
  | failed => rfl

end Codeless

section Message

variable {env : Environment} {state : StateDB} {header : Header} {msg : Message}
  {recipient : Address}

theorem getCode_called (hcode : state.getCode recipient = []) :
    (ensureAccount (bumpNonce (bought state msg) msg.sender) recipient).getCode recipient = [] := by
  calc
    (ensureAccount (bumpNonce (bought state msg) msg.sender) recipient).getCode recipient =
        ((bumpNonce (bought state msg) msg.sender).standing recipient).code :=
      congrArg Standing.code (congrFun (standing_ensureAccount _ _) recipient)
    _ = ((bought state msg).standing recipient).code := (code_bumpNonce _ _ _).1
    _ = state.getCode recipient :=
      congrArg Standing.code (congrFun (standing_bought state msg) recipient)
    _ = [] := hcode

theorem executed_standing_of_codeless (hcovers : Covers env state header msg)
    (hrecipient : msg.recipient = some recipient) (hcode : state.getCode recipient = []) :
    (executed (env.evm header msg) env.config state msg).state.standing =
      (bumpNonce (bought state msg) msg.sender).standing := by
  unfold executed
  rw [execute_of_some rfl hcovers.value_le hrecipient,
    callContract_standing_of_codeless (getCode_called hcode), standing_ensureAccount]

theorem unusedGas_of_codeless (hcovers : Covers env state header msg)
    (hrecipient : msg.recipient = some recipient) (hcode : state.getCode recipient = []) :
    unusedGas (env.evm header msg) env.config state msg = 0 := by
  have hafter :
      (executed (env.evm header msg) env.config state msg).state.getCode recipient = [] := by
    calc
      (executed (env.evm header msg) env.config state msg).state.getCode recipient =
          ((bumpNonce (bought state msg) msg.sender).standing recipient).code :=
        congrArg Standing.code
          (congrFun (executed_standing_of_codeless hcovers hrecipient hcode) recipient)
      _ = ((bought state msg).standing recipient).code := (code_bumpNonce _ _ _).1
      _ = state.getCode recipient :=
        congrArg Standing.code (congrFun (standing_bought state msg) recipient)
      _ = [] := hcode
  unfold unusedGas remainingGas
  rw [hrecipient]
  dsimp only
  rw [StateDB.getCodeSize, hafter]
  simp

theorem flow_of_codeless (hrecipient : msg.recipient = some recipient)
    (hcode : state.getCode recipient = []) (observed : Address) :
    flow (env.evm header msg) (topFrame env state header msg) observed = 0 := by
  unfold flow topFrame messageFrame
  rw [hrecipient]
  dsimp only
  rw [frame_state_of_codeless (getCode_called hcode)]
  exact sub_self _

theorem not_destroyed_of_codeless (hcovers : Covers env state header msg)
    (hrecipient : msg.recipient = some recipient) (hcode : state.getCode recipient = [])
    {observed : Address} (halive : state.hasSuicided observed = false) :
    destroyed (settledState env state header msg) observed = false := by
  have hsettled : (settledState env state header msg).standing =
      (executed (env.evm header msg) env.config state msg).state.standing := by
    unfold settledState settled settle
    dsimp only
    rw [StateDB.standing_addBalance, StateDB.standing_addBalance]
  have hsuicided : (settledState env state header msg).hasSuicided observed = false := by
    calc
      (settledState env state header msg).hasSuicided observed =
          ((executed (env.evm header msg) env.config state msg).state.standing observed).suicided :=
        congrArg Standing.suicided (congrFun hsettled observed)
      _ = ((bumpNonce (bought state msg) msg.sender).standing observed).suicided := by
        rw [executed_standing_of_codeless hcovers hrecipient hcode]
      _ = ((bought state msg).standing observed).suicided := (code_bumpNonce _ _ _).2
      _ = state.hasSuicided observed :=
        congrArg Standing.suicided (congrFun (standing_bought state msg) observed)
      _ = false := halive
  unfold destroyed
  rw [hsuicided, Bool.and_false]

end Message

/-! ## The fee -/

/-- A transaction that admission finds legal, to a recipient without code, and that is applied with
a receipt: its gas limit and the gas used are `CalNewFee` of its value, and the sender pays the
documented fee to the coinbase, next to the value if the execution was successful. Finalising the
state changes no balance of an account that was not marked as self-destructed before. -/
theorem transfer_fee_exact (env : Environment) (state : StateDB) (header : Header)
    (tx : Transaction)
    (usedGas : ℤ) (result : ApplyResult) (receipt : Receipt) (gas : ℤ) (recipient : Address)
    (hrecipient : tx.recipient = some recipient) (hcode : state.getCode recipient = [])
    (hlegal : illegalGasLimitOrGasPrice env.vm tx false true = false)
    (happlied : applyTransaction env state header tx usedGas = .ok result)
    (hreceipt : result.outcome = .ok (receipt, gas)) :
    receipt.gasUsed = calNewFee tx.amount ∧ tx.gasLimit = calNewFee tx.amount ∧
    ∃ msg, Carries env header tx msg ∧
      (∀ observed, (settledState env state header msg).getBalance observed =
        state.getBalance observed +
          Ledger.move msg.sender header.coinbase (documentedFee tx.amount) observed +
          if result.vmerr = none then Ledger.move msg.sender recipient tx.amount observed else 0) ∧
      ∀ observed, state.hasSuicided observed = false →
        result.state.getBalance observed =
          (settledState env state header msg).getBalance observed := by
  have houtcome := applyTransaction_outcome env state header tx usedGas
  rw [happlied] at houtcome
  cases houtcome with
  | unsigned => cases hreceipt
  | refused => cases hreceipt
  | underpaid => cases hreceipt
  | executed msg hmsg hcovers =>
    have hto : msg.recipient = some recipient := by
      rw [hmsg.eq]
      exact hrecipient
    have hvalue : msg.value = tx.amount := by rw [hmsg.eq]
    have hunused := unusedGas_of_codeless hcovers hto hcode
    obtain ⟨hprice, hlow⟩ := gasLimit_of_legal (by rw [hrecipient]; rfl) hlegal
    have hlimit : tx.gasLimit = calNewFee tx.amount := by
      rw [← hlow, Nat.mod_eq_of_lt]
      rw [← Carries.gas_eq hmsg]
      exact hcovers.paysGas.gas_lt
    have hused : gasUsed env state header msg = calNewFee tx.amount := by
      unfold gasUsed
      rw [hunused, Carries.gas_eq hmsg, hlimit]
      exact sub_zero _
    have hfee : gasUsed env state header msg * msg.gasPrice = (documentedFee tx.amount : ℤ) := by
      have hmsgPrice : msg.gasPrice = 10 ^ 11 := by
        rw [hmsg.eq]
        exact hprice
      rw [hused, hmsgPrice, ← price_mul_calNewFee]
      push_cast
      exact mul_comm _ _
    cases hreceipt
    refine ⟨hused, hlimit, msg, hmsg, ?_, ?_⟩
    · intro observed
      rw [settled_balance hcovers]
      unfold charged effect
      rw [hfee, flow_of_codeless hto hcode, add_zero, hvalue]
      unfold target
      rw [hto]
      rfl
    · intro observed halive
      have hbalance := congrFun (recordReceipt_balance hcovers tx usedGas) observed
      rw [not_destroyed_of_codeless hcovers hto hcode halive, ← settled_balance hcovers] at hbalance
      exact hbalance

/-- A transfer of one unit with some data to a precompiled contract. -/
def precompiledTransfer : Transaction := ⟨0, 100000000000, 500000, some 4, 1, [7], 27, 1, 1⟩

/-- It pays the least fee. -/
theorem transfer_fee_precompiled : ∃ result receipt gas,
    applyTransaction (sampleEnvironment 7 stopInterpreter) (soleAccount 7 100000000000000000)
      (sampleHeader 9) precompiledTransfer 0 = .ok result ∧
    result.outcome = .ok (receipt, gas) ∧ receipt.gasUsed = 500000 ∧
    documentedFee precompiledTransfer.amount = 50000000000000000 ∧
    result.state.getBalance 9 = 50000000000000000 ∧ result.state.getBalance 4 = 1 ∧
    result.state.getBalance 7 = 49999999999999999 := by
  obtain ⟨hused, -, msg, hmsg, hsettled, hfinal⟩ := transfer_fee_exact
    (sampleEnvironment 7 stopInterpreter) (soleAccount 7 100000000000000000) (sampleHeader 9)
    precompiledTransfer 0 _ _ _ 4 rfl rfl (by decide) rfl rfl
  have hsender : msg.sender = 7 := by
    unfold Carries at hmsg
    cases hmsg
    rfl
  have hfee : documentedFee precompiledTransfer.amount = 50000000000000000 := by decide
  rw [hsender, hfee] at hsettled
  refine ⟨_, _, _, rfl, rfl, hused, hfee, ?_, ?_, ?_⟩
  · rw [hfinal 9 rfl, hsettled 9]
    rfl
  · rw [hfinal 4 rfl, hsettled 4]
    rfl
  · rw [hfinal 7 rfl, hsettled 7]
    rfl

end LkChain.Ethermint.TransferFee
