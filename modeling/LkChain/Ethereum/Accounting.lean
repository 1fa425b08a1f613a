import LkChain.Ethereum.Outcomes

/-!
# Fees and balances

Where the money of an executed transaction goes. The sender pays the reported gas to the coinbase,
and if the execution succeeds it also pays the transferred value to the recipient; what the code
itself moves between accounts is the flow of its run. The formulas are additive, so they also hold
when sender, recipient and coinbase coincide.

Nothing else changes a balance before the transaction is finalised. Finalising removes the accounts
that self-destructed in the transaction, together with whatever reached them after they did; the sum
of all balances falls by that amount and by nothing else.
-/

open LkChain.Foundation

namespace LkChain.Ethereum.Accounting

open State Transactions Calls Transition Outcomes

/-- What is assumed of the byte-code interpreter: a successful run moves balances around, and no run
ends with more gas than it was given. -/
structure Conserves (vm : VM) : Prop where
  total_eq : ∀ context state contract input,
    (vm.interpreter context state contract input).err = none →
      Ledger.total (vm.interpreter context state contract input).state.getBalance =
        Ledger.total state.getBalance
  gas_le : ∀ context state contract input,
    (vm.interpreter context state contract input).gas ≤ contract.gas

/-- The interpreter returns at most the gas it was given. -/
def KeepsGas (vm : VM) : Prop :=
  ∀ context state contract input,
    (vm.interpreter context state contract input).gas ≤ contract.gas

/-! ## Runs -/

section Runs

variable {evm : EVM} {state : StateDB} {contract : Contract} {input : Bytes}

theorem run_total (hvm : Conserves evm.vm) (herr : (run evm state contract input).err = none) :
    Ledger.total (run evm state contract input).state.getBalance =
      Ledger.total state.getBalance := by
  unfold run at herr ⊢
  cases hprecompiled : contract.codeAddr.bind evm.vm.precompiledContractsHomestead with
  | some p =>
    simp only [runPrecompiledContract]
    split_ifs
    · rfl
    · split <;> rfl
  | none =>
    simp only [hprecompiled, interpreterRun] at herr ⊢
    split_ifs at herr ⊢ with hcode
    · rfl
    · exact hvm.total_eq _ _ _ _ herr

theorem run_gas_le (hgas : KeepsGas evm.vm) :
    (run evm state contract input).gas ≤ contract.gas := by
  unfold run
  cases hprecompiled : contract.codeAddr.bind evm.vm.precompiledContractsHomestead with
  | some p =>
    simp only [runPrecompiledContract]
    split_ifs
    · rfl
    · split <;> exact Nat.sub_le _ _
  | none =>
    simp only [interpreterRun]
    split_ifs
    · rfl
    · exact hgas _ _ _ _

/-- What the code of a frame moves between the accounts. -/
def flow (evm : EVM) (frame : Frame) (observed : Address) : ℤ :=
  (frame.run evm).state.getBalance observed - frame.state.getBalance observed

theorem total_flow (hvm : Conserves evm.vm) {frame : Frame} (herr : (frame.run evm).err = none) :
    Ledger.total (flow evm frame) = 0 := by
  have htotal : Ledger.total (frame.run evm).state.getBalance =
      Ledger.total frame.state.getBalance := run_total hvm herr
  have hsum : Ledger.total (flow evm frame) =
      Ledger.total (frame.run evm).state.getBalance - Ledger.total frame.state.getBalance :=
    Finset.sum_sub_distrib _ _
  rw [hsum, htotal, sub_self]

end Runs

/-! ## Calls and creations -/

section Calls

variable {evm : EVM} {state : StateDB} {caller address : Address} {input : Bytes} {gas value : ℕ}

theorem getBalance_transfer (observed : Address) :
    (transfer state caller address value).getBalance observed =
      state.getBalance observed + Ledger.move caller address value observed := by
  rw [transfer, StateDB.getBalance_addBalance, StateDB.getBalance_subBalance,
    Ledger.credit_credit_apply]

/-- The balance effect of a message: all of it on success, nothing on failure. -/
def effect (evm : EVM) (caller address : Address) (value : ℕ) (frame : Frame)
    (err : Option VMError) (observed : Address) : ℤ :=
  if err = none then Ledger.move caller address value observed + flow evm frame observed else 0

@[simp]
theorem effect_some {frame : Frame} (error : VMError) (observed : Address) :
    effect evm caller address value frame (some error) observed = 0 := by
  simp [effect]

/-- A frame that starts with the transfer of the value ends with the effect of the message. -/
theorem effect_none {frame : Frame} {observed : Address}
    (hstart : frame.state.getBalance observed =
      state.getBalance observed + Ledger.move caller address value observed) :
    (frame.run evm).state.getBalance observed =
      state.getBalance observed + effect evm caller address value frame none observed := by
  simp only [effect, flow, hstart, if_true]
  omega

theorem callContract_balance (observed : Address) :
    (callContract evm state state caller address input gas value).state.getBalance observed =
      state.getBalance observed +
        effect evm caller address value (callFrame evm state caller address input gas value)
          (callContract evm state state caller address input gas value).err observed := by
  have hend := callContract_end evm state state caller address input gas value
  generalize callContract evm state state caller address input gas value = ended at hend
  cases hend with
  | unpaid hfee => simp
  | returned result hfee hresult hrun =>
    subst hresult
    exact effect_none (getBalance_transfer observed)
  | failed result hfee hresult error hrun => simp

theorem createContract_balance (hdepth : evm.depth = 0) (code : Bytes) (observed : Address) :
    (createContract evm state caller address code gas value).state.getBalance observed =
      state.getBalance observed +
        effect evm caller address value (createFrame evm state caller address code gas value)
          (createContract evm state caller address code gas value).err observed := by
  have hcreated : (createdAccount state address).getBalance = state.getBalance := by
    simp [createdAccount]
  have hend := createContract_end evm state caller address code gas value hdepth
  generalize createContract evm state caller address code gas value = ended at hend
  cases hend with
  | collision hused => simp
  | unpaid hfree hfee => simp [hcreated]
  | failed result hfee hresult error left => simp
  | stored result hfree hfee hresult hrun =>
    subst hresult
    rw [StateDB.getBalance_setCode]
    refine effect_none ?_
    rw [← hcreated]
    exact getBalance_transfer observed

theorem callContract_gas_le (hgas : KeepsGas evm.vm) :
    (callContract evm state state caller address input gas value).gas ≤ gas := by
  have hend := callContract_end evm state state caller address input gas value
  have hrun : ((callFrame evm state caller address input gas value).run evm).gas ≤
      gas - totalFee evm (state.getCode address) value := run_gas_le hgas
  generalize callContract evm state state caller address input gas value = ended at hend
  cases hend with
  | unpaid hfee => exact Nat.zero_le _
  | returned result hfee hresult =>
    rw [hresult] at hrun
    exact hrun.trans (Nat.sub_le _ _)
  | failed result hfee hresult error =>
    rw [hresult] at hrun
    exact (leftOverGas_le _ _ _).trans (by omega)

theorem createContract_gas_le (hgas : KeepsGas evm.vm) (hdepth : evm.depth = 0) (code : Bytes) :
    (createContract evm state caller address code gas value).gas ≤ gas := by
  have hend := createContract_end evm state caller address code gas value hdepth
  have hrun : ((createFrame evm state caller address code gas value).run evm).gas ≤
      gas - totalFee evm code value := run_gas_le hgas
  generalize createContract evm state caller address code gas value = ended at hend
  cases hend with
  | collision hused => exact Nat.zero_le _
  | unpaid hfree hfee => exact Nat.zero_le _
  | failed result hfee hresult error left herror hleft =>
    rw [hresult] at hrun
    exact hleft.trans (by omega)
  | stored result hfree hfee hresult =>
    rw [hresult] at hrun
    exact (Nat.sub_le _ _).trans (hrun.trans (Nat.sub_le _ _))

theorem callContract_run_ok
    (herr : (callContract evm state state caller address input gas value).err = none) :
    ((callFrame evm state caller address input gas value).run evm).err = none := by
  have hend := callContract_end evm state state caller address input gas value
  generalize callContract evm state state caller address input gas value = ended at hend herr
  cases hend with
  | unpaid => cases herr
  | returned result hfee hresult hrun => rwa [hresult]
  | failed => cases herr

theorem createContract_run_ok (hdepth : evm.depth = 0) {code : Bytes}
    (herr : (createContract evm state caller address code gas value).err = none) :
    ((createFrame evm state caller address code gas value).run evm).err = none := by
  have hend := createContract_end evm state caller address code gas value hdepth
  generalize createContract evm state caller address code gas value = ended at hend herr
  cases hend with
  | collision => cases herr
  | unpaid => cases herr
  | failed => cases herr
  | stored result hfree hfee hresult hrun => rwa [hresult]

end Calls

/-! ## Executing a message -/

section Execute

variable {evm : EVM} {state : StateDB} {msg : Message} {gas : ℕ}

/-- The account that receives the value: the recipient, or the new contract. -/
def target (vm : VM) (state : StateDB) (msg : Message) : Address :=
  msg.recipient.getD (vm.createAddress msg.sender (state.getNonce msg.sender) msg.data)

/-- The run that the message starts. -/
def messageFrame (evm : EVM) (state : StateDB) (msg : Message) (gas : ℕ) : Frame :=
  match msg.recipient with
  | none =>
    createFrame evm (bumpNonce state msg.sender) msg.sender (target evm.vm state msg) msg.data gas
      msg.value
  | some recipient =>
    callFrame evm (ensureAccount (bumpNonce state msg.sender) recipient) msg.sender recipient
      msg.data gas msg.value

/-- Executing a covered message: its effect on the balances, the gas it may leave over, and that its
run was successful if it was. -/
structure Executed (evm : EVM) (state : StateDB) (msg : Message) (gas : ℕ) (result : CallResult) :
    Prop where
  balance : ∀ observed, result.state.getBalance observed = state.getBalance observed +
    effect evm msg.sender (target evm.vm state msg) msg.value (messageFrame evm state msg gas)
      result.err observed
  gas_le : result.gas ≤ gas
  run_ok : result.err = none → ((messageFrame evm state msg gas).run evm).err = none

/-- The effect on the balances does not depend on what the interpreter does with the gas. -/
theorem execute_balance (hdepth : evm.depth = 0)
    (hcan : (msg.value : ℤ) ≤ state.getBalance msg.sender) (observed : Address) :
    (execute evm state msg gas).state.getBalance observed = state.getBalance observed +
      effect evm msg.sender (target evm.vm state msg) msg.value (messageFrame evm state msg gas)
        (execute evm state msg gas).err observed := by
  cases hrecipient : msg.recipient with
  | none =>
    rw [execute_of_none hdepth hcan hrecipient, createContract_balance hdepth]
    simp [messageFrame, target, hrecipient]
  | some recipient =>
    rw [execute_of_some hdepth hcan hrecipient, callContract_balance]
    simp [messageFrame, target, hrecipient]

theorem execute_executed (hgas : KeepsGas evm.vm) (hdepth : evm.depth = 0)
    (hcan : (msg.value : ℤ) ≤ state.getBalance msg.sender) :
    Executed evm state msg gas (execute evm state msg gas) := by
  refine ⟨execute_balance hdepth hcan, ?_, ?_⟩
  · cases hrecipient : msg.recipient with
    | none =>
      rw [execute_of_none hdepth hcan hrecipient]
      exact createContract_gas_le hgas hdepth _
    | some recipient =>
      rw [execute_of_some hdepth hcan hrecipient]
      exact callContract_gas_le hgas
  · intro herr
    cases hrecipient : msg.recipient with
    | none =>
      rw [execute_of_none hdepth hcan hrecipient] at herr
      simpa [messageFrame, target, hrecipient] using createContract_run_ok hdepth herr
    | some recipient =>
      rw [execute_of_some hdepth hcan hrecipient] at herr
      simpa [messageFrame, hrecipient] using callContract_run_ok herr

end Execute

/-! ## Settling and finalising -/

section Settle

variable {env : Environment} {state : StateDB} {header : Header} {msg : Message}

/-- The state after a covered message, before it is finalised. -/
def settledState (env : Environment) (state : StateDB) (header : Header) (msg : Message) :
    StateDB :=
  (settled (env.evm header msg) env.config state msg).state

/-- The run that a covered message starts. -/
def topFrame (env : Environment) (state : StateDB) (header : Header) (msg : Message) : Frame :=
  messageFrame (env.evm header msg) (bought state msg) msg
    (msg.gas - messageGas (env.evm header msg) env.config msg)

theorem executed_balance (hcovers : Covers env state header msg) (observed : Address) :
    (executed (env.evm header msg) env.config state msg).state.getBalance observed =
      (bought state msg).getBalance observed +
        effect (env.evm header msg) msg.sender (target env.vm (bought state msg) msg) msg.value
          (topFrame env state header msg) (executed (env.evm header msg) env.config state msg).err
          observed :=
  execute_balance rfl hcovers.value_le observed

theorem executed_top (hgas : KeepsGas env.vm) (hcovers : Covers env state header msg) :
    Executed (env.evm header msg) (bought state msg) msg
      (msg.gas - messageGas (env.evm header msg) env.config msg)
      (executed (env.evm header msg) env.config state msg) := by
  exact execute_executed hgas rfl hcovers.value_le

theorem unusedGas_le (hgas : KeepsGas env.vm) (hcovers : Covers env state header msg) :
    unusedGas (env.evm header msg) env.config state msg ≤
      msg.gas - messageGas (env.evm header msg) env.config msg := by
  have hleft := (executed_top hgas hcovers).gas_le
  unfold unusedGas remainingGas
  split
  · exact hleft
  · split_ifs
    · exact hleft
    · exact Nat.zero_le _

/-- What the state is charged with before finalisation: the fee, and the effect of the message. -/
def charged (env : Environment) (state : StateDB) (header : Header) (msg : Message)
    (observed : Address) : ℤ :=
  state.getBalance observed +
    Ledger.move msg.sender header.coinbase (gasUsed env state header msg * msg.gasPrice) observed +
    effect (env.evm header msg) msg.sender (target env.vm state msg) msg.value
      (topFrame env state header msg) (executed (env.evm header msg) env.config state msg).err
      observed

theorem getNonce_bought (observed : Address) :
    (bought state msg).getNonce observed = state.getNonce observed :=
  congrArg Standing.nonce (congrFun (standing_bought state msg) observed)

/-- The purchase of the gas, the refund and the credit of the coinbase add up to the fee. -/
theorem settled_balance (hcovers : Covers env state header msg)
    (observed : Address) :
    (settledState env state header msg).getBalance observed =
      charged env state header msg observed := by
  have htarget : target env.vm (bought state msg) msg = target env.vm state msg := by
    simp only [target, getNonce_bought]
  have hbought : (bought state msg).getBalance observed = state.getBalance observed -
      Ledger.share msg.sender observed ((msg.gas * msg.gasPrice : ℕ) : ℤ) := by
    rw [bought, StateDB.getBalance_subBalance, Ledger.credit_apply, Ledger.share_neg,
      getBalance_ensureAccount]
    omega
  have hexecuted := executed_balance hcovers observed
  have hshare : Ledger.share msg.sender observed ((msg.gas * msg.gasPrice : ℕ) : ℤ) =
      Ledger.share msg.sender observed (gasUsed env state header msg * msg.gasPrice) +
        Ledger.share msg.sender observed
          (unusedGas (env.evm header msg) env.config state msg * msg.gasPrice) := by
    rw [← Ledger.share_add, ← add_mul]
    simp [gasUsed]
  have hcoinbase : (env.evm header msg).context.coinbase = header.coinbase := rfl
  simp only [settledState, settled, settle, StateDB.getBalance_addBalance, Ledger.credit_apply,
    hexecuted, hbought, hcoinbase, htarget, charged, topFrame, Ledger.move, hshare]
  unfold gasUsed
  omega

/-- The accounts that `Finalise` removes because they self-destructed. -/
def destroyed (state : StateDB) (address : Address) : Bool :=
  state.dirty address && state.hasSuicided address

theorem getBalance_finalise (deleteEmptyObjects : Bool) (observed : Address) :
    (state.finalise deleteEmptyObjects).getBalance observed =
      if destroyed state observed then 0 else state.getBalance observed := by
  have hempty : (state.view observed).empty = true → (state.view observed).balance = 0 := by
    intro hempty
    simp only [StateObject.empty, Bool.and_eq_true, beq_iff_eq] at hempty
    exact hempty.1.2
  unfold StateDB.getBalance
  rw [StateDB.view_finalise]
  cases hdirty : state.dirty observed with
  | false => simp [destroyed, hdirty]
  | true =>
    cases hsuicided : (state.view observed).suicided with
    | true => simp [destroyed, StateDB.hasSuicided, StateObject.removed, StateObject.fresh, hdirty,
        hsuicided]
    | false =>
      simp only [destroyed, StateDB.hasSuicided, StateObject.removed, hdirty, hsuicided,
        Bool.false_or, Bool.and_false, Bool.false_eq_true, if_false, true_and, Bool.and_eq_true]
      split_ifs with hremoved
      · exact (hempty hremoved.2).symm
      · rfl

theorem recordReceipt_balance (hcovers : Covers env state header msg) (tx : Transaction)
    (usedGas : ℤ) :
    (recordReceipt env header tx msg usedGas (gasUsed env state header msg)
        (settled (env.evm header msg) env.config state msg)).state.getBalance =
      fun observed ↦
        if destroyed (settledState env state header msg) observed then 0
        else charged env state header msg observed := by
  funext observed
  obtain ⟨deleteEmptyObjects, hfinal⟩ :=
    finaliseTx_fst env header.number (settledState env state header msg)
  have hstate : (recordReceipt env header tx msg usedGas (gasUsed env state header msg)
      (settled (env.evm header msg) env.config state msg)).state =
      (finaliseTx env header.number (settledState env state header msg)).1 := rfl
  rw [hstate, hfinal, getBalance_finalise, settled_balance hcovers]

theorem total_charged (hvm : Conserves env.vm) (hcovers : Covers env state header msg) :
    Ledger.total (charged env state header msg) = Ledger.total state.getBalance := by
  have heffect : Ledger.total (effect (env.evm header msg) msg.sender (target env.vm state msg)
      msg.value (topFrame env state header msg)
      (executed (env.evm header msg) env.config state msg).err) = 0 := by
    cases herr : (executed (env.evm header msg) env.config state msg).err with
    | some error => simp [Ledger.total]
    | none =>
      have hflow := total_flow hvm ((executed_top hvm.gas_le hcovers).run_ok herr)
      have hmove := Ledger.total_move msg.sender (target env.vm state msg) msg.value
      have hsum : effect (env.evm header msg) msg.sender (target env.vm state msg) msg.value
          (topFrame env state header msg) none = fun observed ↦
            Ledger.move msg.sender (target env.vm state msg) msg.value observed +
              flow (env.evm header msg) (topFrame env state header msg) observed := rfl
      rw [hsum, Ledger.total_add]
      exact (congrArg₂ (· + ·) hmove hflow).trans (add_zero 0)
  unfold charged
  rw [Ledger.total_add, Ledger.total_add, heffect, Ledger.total_move, add_zero, add_zero]

end Settle

/-- The accounting of a transaction that `ApplyTransaction` accepts with gas amount `gas`. The total
and the receipt agree on that amount, which lies between the intrinsic price and the gas limit. The
sender pays it to the coinbase, and on success pays the value to the recipient, while the code moves
what its run moves and creates nothing. Accounts that self-destructed end with nothing, and the sum
of all balances falls by exactly what they held when the transaction was finalised. -/
theorem applyTransaction_accounting (env : Environment) (hvm : Conserves env.vm) (state : StateDB)
    (header : Header) (tx : Transaction) (usedGas : ℤ) (result : ApplyResult) (receipt : Receipt)
    (gas : ℤ) (happlied : applyTransaction env state header tx usedGas = .ok result)
    (hreceipt : result.outcome = .ok (receipt, gas)) :
    ∃ msg, Carries env header tx msg ∧
      receipt.gasUsed = gas ∧
      result.usedGas = usedGas + gas ∧
      (messageGas (env.evm header msg) env.config msg : ℤ) ≤ gas ∧ gas ≤ tx.gasLimit ∧
      (∀ observed, result.state.getBalance observed =
        if destroyed (settledState env state header msg) observed then 0
        else
          state.getBalance observed +
            Ledger.move msg.sender header.coinbase (gas * msg.gasPrice) observed +
            if result.vmerr = none then
              Ledger.move msg.sender (target env.vm state msg) msg.value observed +
                flow (env.evm header msg) (topFrame env state header msg) observed
            else 0) ∧
      (result.vmerr = none →
        Ledger.total (flow (env.evm header msg) (topFrame env state header msg)) = 0) ∧
      Ledger.total result.state.getBalance = Ledger.total state.getBalance -
        Ledger.total fun observed ↦
          if destroyed (settledState env state header msg) observed then
            (settledState env state header msg).getBalance observed
          else 0 := by
  have houtcome := applyTransaction_outcome env state header tx usedGas
  rw [happlied] at houtcome
  cases houtcome with
  | unsigned => cases hreceipt
  | refused => cases hreceipt
  | underpaid => cases hreceipt
  | executed msg hmsg hcovers =>
    cases hreceipt
    have hunused := unusedGas_le hvm.gas_le hcovers
    have hintrinsic := hcovers.intrinsic_le
    have hlimit : msg.gas = tx.gasLimit := Carries.gas_eq hmsg
    have hbalance := recordReceipt_balance hcovers tx usedGas
    refine ⟨msg, hmsg, rfl, rfl, ?_, ?_, fun observed ↦ congrFun hbalance observed, ?_, ?_⟩
    · unfold gasUsed
      omega
    · unfold gasUsed
      omega
    · exact fun herr ↦ total_flow hvm ((executed_top hvm.gas_le hcovers).run_ok herr)
    · rw [hbalance, Ledger.total_clear, total_charged hvm hcovers]
      simp only [settled_balance hcovers]

theorem conserves_stopInterpreter (signer : Address) :
    Conserves (sampleEnvironment signer stopInterpreter).vm where
  total_eq _ _ _ _ _ := rfl
  gas_le _ _ _ _ := le_rfl

/-- A transfer of one unit uses up its gas limit of 21000 and moves nothing else. -/
theorem applyTransaction_accounting_transfer :
    ∃ result receipt msg,
      applyTransaction (sampleEnvironment 7 stopInterpreter) (soleAccount 7 50000) (sampleHeader 9)
        (sampleTransfer 8 1 21000 1) 0 = .ok result ∧
      result.outcome = .ok (receipt, 21000) ∧
      Carries (sampleEnvironment 7 stopInterpreter) (sampleHeader 9)
        (sampleTransfer 8 1 21000 1) msg ∧
      receipt.gasUsed = 21000 ∧ result.usedGas = 0 + 21000 ∧
      Ledger.total (flow ((sampleEnvironment 7 stopInterpreter).evm (sampleHeader 9) msg)
        (topFrame (sampleEnvironment 7 stopInterpreter) (soleAccount 7 50000) (sampleHeader 9)
          msg)) = 0 := by
  obtain ⟨msg, hmsg, hreceipt, hused, -, -, -, hflow, -⟩ := applyTransaction_accounting
    (sampleEnvironment 7 stopInterpreter) (conserves_stopInterpreter 7) (soleAccount 7 50000)
    (sampleHeader 9) (sampleTransfer 8 1 21000 1) 0 _ _ 21000 rfl rfl
  exact ⟨_, _, msg, rfl, rfl, hmsg, hreceipt, hused, hflow rfl⟩

/-! ## A coinbase that self-destructs -/

/-- An interpreter whose contracts hand their balance over and self-destruct at once, except for the
beneficiary itself. -/
def selfDestructTo (beneficiary : Address) (_ : Context) (state : StateDB) (contract : Contract)
    (_ : Bytes) : RunResult :=
  if contract.self = beneficiary then ⟨state, [], contract.gas, none⟩
  else
    ⟨(state.addBalance beneficiary (state.getBalance contract.self)).suicide contract.self, [],
      contract.gas, none⟩

theorem conserves_selfDestructTo (signer beneficiary : Address) :
    Conserves (sampleEnvironment signer (selfDestructTo beneficiary)).vm where
  total_eq := by
    intro context state contract input _
    simp only [sampleEnvironment, selfDestructTo]
    split_ifs with hself
    · rfl
    · have hunchanged : (state.addBalance beneficiary (state.getBalance contract.self)).getBalance
          contract.self = state.getBalance contract.self := by
        simp [StateDB.getBalance_addBalance, Ledger.credit, hself]
      rw [StateDB.getBalance_suicide, Ledger.total_credit, hunchanged,
        StateDB.getBalance_addBalance, Ledger.total_credit]
      omega
  gas_le := by
    intro context state contract input
    simp only [sampleEnvironment, selfDestructTo]
    split_ifs <;> rfl

/-- Account 7 signs every transaction, and contracts self-destruct in favour of account 5. -/
def destroyingEnvironment : Environment := sampleEnvironment 7 (selfDestructTo 5)

/-- Account 7 owns 100000 units, account 8 is a contract: `PUSH1 5; SELFDESTRUCT`. -/
def coinbaseContract : StateDB :=
  StateDB.new fun observed ↦
    if observed = 7 then some ⟨0, 100000, [], fun _ ↦ 0⟩
    else if observed = 8 then some ⟨1, 0, [96, 5, 255], fun _ ↦ 0⟩
    else none

/-- A call of the contract without value. -/
def coinbaseCall : Message := ⟨7, some 8, 0, 0, 30000, 1, []⟩

theorem suicided_coinbaseContract (observed : Address) :
    (coinbaseContract.standing observed).suicided = false := by
  unfold coinbaseContract StateDB.standing StateDB.view StateDB.new
  simp only
  split_ifs <;> rfl

theorem destroyed_coinbaseCall {observed : Address} (hother : observed ≠ 8) :
    destroyed (settledState destroyingEnvironment coinbaseContract (sampleHeader 8) coinbaseCall)
      observed = false := by
  let started :=
    (transfer (bumpNonce (bought coinbaseContract coinbaseCall) 7) 7 8 0).addBalance 5 0
  have hexecuted : (executed (destroyingEnvironment.evm (sampleHeader 8) coinbaseCall)
      destroyingEnvironment.config coinbaseContract coinbaseCall).state = started.suicide 8 := rfl
  have hexist : started.exist 8 = true := rfl
  have hstanding : (settledState destroyingEnvironment coinbaseContract (sampleHeader 8)
      coinbaseCall).standing observed =
      (bumpNonce (bought coinbaseContract coinbaseCall) 7).standing observed := by
    unfold settledState settled settle
    simp only [StateDB.standing_addBalance]
    rw [hexecuted, StateDB.standing_of_update (StateDB.view_suicide.trans (if_pos hexist)) hother]
    simp [started]
  have hmark : ((bumpNonce (bought coinbaseContract coinbaseCall) 7).standing observed).suicided =
      false := by
    by_cases hsender : observed = 7
    · subst hsender
      rw [standing_bumpNonce_self, standing_bought]
      exact suicided_coinbaseContract 7
    · rw [standing_bumpNonce_of_ne hsender, standing_bought]
      exact suicided_coinbaseContract observed
  have hsuicided : (settledState destroyingEnvironment coinbaseContract (sampleHeader 8)
      coinbaseCall).hasSuicided observed = false :=
    (congrArg Standing.suicided hstanding).trans hmark
  rw [destroyed, hsuicided, Bool.and_false]

/-- A coinbase that self-destructs in the transaction is not credited, and the fee of 30000 units
that the sender has paid disappears from the sum of all balances. -/
theorem applyTransaction_burns_fee :
    Conserves destroyingEnvironment.vm ∧
    ∃ result receipt,
      applyTransaction destroyingEnvironment coinbaseContract (sampleHeader 8)
        (sampleTransfer 8 1 30000 0) 0 = .ok result ∧
      result.outcome = .ok (receipt, 30000) ∧
      result.state.getBalance 7 = coinbaseContract.getBalance 7 - 30000 ∧
      result.state.getBalance 8 = coinbaseContract.getBalance 8 ∧
      Ledger.total result.state.getBalance = Ledger.total coinbaseContract.getBalance - 30000 := by
  have hvm : Conserves destroyingEnvironment.vm := conserves_selfDestructTo 7 5
  have hcovers : Covers destroyingEnvironment coinbaseContract (sampleHeader 8) coinbaseCall :=
    ⟨⟨by decide, by decide, by decide⟩, by decide, by decide⟩
  have hbalance := recordReceipt_balance hcovers (sampleTransfer 8 1 30000 0) 0
  have hburned : (fun observed ↦
      if destroyed (settledState destroyingEnvironment coinbaseContract (sampleHeader 8)
          coinbaseCall) observed then
        charged destroyingEnvironment coinbaseContract (sampleHeader 8) coinbaseCall observed
      else 0) = fun observed ↦ Ledger.share (8 : Address) observed 30000 := by
    funext observed
    by_cases hcoinbase : observed = 8
    · subst hcoinbase
      rfl
    · rw [destroyed_coinbaseCall hcoinbase]
      exact (if_neg hcoinbase).symm
  refine ⟨hvm, _, _, rfl, rfl, rfl, rfl, ?_⟩
  calc
    _ = Ledger.total
          (charged destroyingEnvironment coinbaseContract (sampleHeader 8) coinbaseCall) -
        Ledger.total fun observed ↦ Ledger.share (8 : Address) observed 30000 := by
      rw [← hburned, ← Ledger.total_clear]
      exact congrArg Ledger.total hbalance
    _ = _ := by rw [total_charged hvm hcovers, Ledger.total_share]

end LkChain.Ethereum.Accounting
