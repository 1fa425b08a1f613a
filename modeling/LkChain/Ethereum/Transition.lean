import LkChain.Ethereum.Calls

/-!
# Applying one transaction

`TransitionDb` of `core/state_transition.go` and `ApplyTransaction` of `core/state_processor.go`.
The state is threaded through every exit, so that what a failed transaction leaves behind is part
of the result. A Go panic is the outcome `Panic`; the nil-able gas amount of `ApplyMessage` is an
`Option`.
-/

namespace LkChain.Ethereum.Transition

open State Transactions Calls

/-- The ways in which the modelled code ends the node: run-time panics, and a commit that leaves no
work to go on with. -/
inductive Panic where
  | nilDereference
  | commitState
  | resetWork
deriving DecidableEq, Repr

/-- Errors that make a transaction invalid for the block. -/
inductive TxError where
  | sender (error : SenderError)
  | nonceTooHigh
  | nonceTooLow
  | insufficientBalanceForGas
  | outOfGas
deriving DecidableEq, Repr

structure Message where
  sender : Address
  recipient : Option Address
  nonce : ℕ
  value : ℕ
  gas : ℕ
  gasPrice : ℕ
  data : Bytes

structure Header where
  number : ℕ
  time : ℕ
  coinbase : Address
  gasLimit : ℕ
  difficulty : ℤ

def asMessage (recovery : Recovery) (signer : Signer) (tx : Transaction) :
    Except SenderError Message :=
  match signer.sender recovery tx with
  | .error error => .error error
  | .ok sender =>
    .ok ⟨sender, tx.recipient, tx.accountNonce, tx.amount, tx.gasLimit, tx.price, tx.payload⟩

/-- `from` and `to` of the state transition: the account is created if it does not exist. -/
def ensureAccount (state : StateDB) (address : Address) : StateDB :=
  if state.exist address then state else state.createAccount address

/-- `buyGas`: reserve the whole gas limit at the given price. The gas pool is not consulted. -/
def buyGas (state : StateDB) (msg : Message) : StateDB × Except TxError ℕ :=
  if 2 ^ 64 ≤ msg.gas then (state, .error .outOfGas)
  else
    let state := ensureAccount state msg.sender
    let mgval := msg.gas * msg.gasPrice
    if state.getBalance msg.sender < mgval then (state, .error .insufficientBalanceForGas)
    else (state.subBalance msg.sender mgval, .ok msg.gas)

/-- `preCheck`: the nonce must be the expected one, then the gas is bought. -/
def preCheck (state : StateDB) (msg : Message) : StateDB × Except TxError ℕ :=
  let state := ensureAccount state msg.sender
  let nonce := state.getNonce msg.sender
  if nonce < msg.nonce then (state, .error .nonceTooHigh)
  else if msg.nonce < nonce then (state, .error .nonceTooLow)
  else buyGas state msg

/-- `isContractExecution`: a payload that is a JSON object is third-party data, not a call. -/
def isContractExecution (vm : VM) (recipient : Option Address) (data : Bytes) : Bool :=
  match recipient with
  | none => false
  | some _ => if data.length = 0 then false else !vm.isJSONObject data

/-- The results of `TransitionDb` next to the state it leaves behind. -/
structure TransitionResult where
  state : StateDB
  ret : Bytes
  usedGas : Option ℤ
  vmerr : Option VMError
  err : Option TxError

/-- Run the message: a creation, or a nonce bump followed by a call. -/
def execute (evm : EVM) (state : StateDB) (msg : Message) (gas : ℕ) : CallResult :=
  match msg.recipient with
  | none =>
    let result := create evm state msg.sender msg.data gas msg.value
    ⟨result.state, result.ret, result.gas, result.err⟩
  | some recipient =>
    call evm (ensureAccount (bumpNonce state msg.sender) recipient) msg.sender recipient msg.data
      gas
      msg.value

/-- The gas left to the sender: only creations and calls of contract code keep a remainder. -/
def remainingGas (evm : EVM) (msg : Message) (result : CallResult) : ℕ :=
  match msg.recipient with
  | none => result.gas
  | some recipient =>
    if isContractExecution evm.vm msg.recipient msg.data &&
        0 < result.state.getCodeSize recipient then result.gas
    else 0

/-- `refundGas` and the coinbase credit. -/
def settle (evm : EVM) (msg : Message) (state : StateDB) (gas : ℕ) : StateDB :=
  let refunded := state.addBalance msg.sender (gas * msg.gasPrice)
  refunded.addBalance evm.context.coinbase (((msg.gas : ℤ) - gas) * msg.gasPrice)

/-- `TransitionDb`. An insufficient balance in the virtual machine ends the transition without an
error and without a gas amount. -/
def transitionDb (evm : EVM) (config : ChainConfig) (state : StateDB) (msg : Message) :
    TransitionResult :=
  match preCheck state msg with
  | (state, .error error) => ⟨state, [], none, none, some error⟩
  | (state, .ok gas) =>
    let state := ensureAccount state msg.sender
    let homestead := config.isHomestead evm.context.blockNumber
    let intrinsic := intrinsicGas msg.data msg.recipient.isNone homestead
    if 2 ^ 64 ≤ intrinsic then ⟨state, [], none, none, some .outOfGas⟩
    else if gas < intrinsic then ⟨state, [], none, none, some .outOfGas⟩
    else
      let result := execute evm state msg (gas - intrinsic)
      if result.err = some .insufficientBalance then ⟨result.state, [], none, result.err, none⟩
      else
        let left := remainingGas evm msg result
        ⟨settle evm msg result.state left, result.ret, some ((msg.gas : ℤ) - left), result.err,
          none⟩

/-- `ApplyMessage`: run the transition of a message on a fresh `StateTransition`. -/
def applyMessage (evm : EVM) (config : ChainConfig) (state : StateDB) (msg : Message) :
    TransitionResult :=
  transitionDb evm config state msg

/-- The receipt fields that depend on the execution; the bloom filter is computed from the logs. -/
structure Receipt where
  postState : Option Hash
  failed : Bool
  cumulativeGasUsed : ℤ
  txHash : Hash
  gasUsed : ℤ
  contractAddress : Option Address
  logs : List Log

/-- Everything `ApplyTransaction` is called with besides state, header and transaction. -/
structure Environment where
  config : ChainConfig
  vm : VM
  recovery : Recovery
  vmConfig : Config

/-- `NewEVMContext` and `NewEVM`: the beneficiary is the author of the header. -/
def Environment.evm (env : Environment) (header : Header) (msg : Message) : EVM where
  vm := env.vm
  context := ⟨msg.sender, msg.gasPrice, header.coinbase, header.gasLimit, header.number,
    header.time, header.difficulty, msg.nonce⟩
  depth := 0
  config := env.vmConfig

structure ApplyResult where
  state : StateDB
  usedGas : ℤ
  vmerr : Option VMError
  outcome : Except TxError (Receipt × ℤ)

/-- `Finalise` under Byzantium rules, `IntermediateRoot` before. -/
def finaliseTx (env : Environment) (number : ℕ) (state : StateDB) : StateDB × Option Hash :=
  if env.config.isByzantium number then (state.finalise true, none)
  else
    let state := state.finalise (env.config.isEIP158 number)
    (state, some (env.vm.trieHash state))

/-- The end of `ApplyTransaction`: finalise the state, add up the gas and write the receipt. -/
def recordReceipt (env : Environment) (header : Header) (tx : Transaction) (msg : Message)
    (usedGas gas : ℤ) (result : TransitionResult) : ApplyResult :=
  let (state, root) := finaliseTx env header.number result.state
  let receipt : Receipt :=
    { postState := root
      failed := result.vmerr.isSome
      cumulativeGasUsed := usedGas + gas
      txHash := env.recovery.txHash tx
      gasUsed := gas
      contractAddress :=
        if tx.recipient.isNone ∧ result.vmerr.isNone then
          some (env.vm.createAddress msg.sender tx.accountNonce tx.payload)
        else none
      logs := state.getLogs (env.recovery.txHash tx) }
  ⟨state, usedGas + gas, result.vmerr, .ok (receipt, gas)⟩

/-- `ApplyTransaction`. Adding the gas amount to the total dereferences it. -/
def applyTransaction (env : Environment) (state : StateDB) (header : Header) (tx : Transaction)
    (usedGas : ℤ) : Except Panic ApplyResult :=
  match asMessage env.recovery (makeSigner env.config header.number) tx with
  | .error error => .ok ⟨state, usedGas, none, .error (.sender error)⟩
  | .ok msg =>
    let result := applyMessage (env.evm header msg) env.config state msg
    match result.err with
    | some error => .ok ⟨result.state, usedGas, result.vmerr, .error error⟩
    | none =>
      match result.usedGas with
      | none => .error .nilDereference
      | some gas => .ok (recordReceipt env header tx msg usedGas gas result)

theorem finaliseTx_fst (env : Environment) (number : ℕ) (state : StateDB) :
    ∃ deleteEmptyObjects, (finaliseTx env number state).1 = state.finalise deleteEmptyObjects := by
  unfold finaliseTx
  split_ifs
  · exact ⟨_, rfl⟩
  · exact ⟨_, rfl⟩

/-! ## The exits of a transition -/

@[simp]
theorem view_ensureAccount (state : StateDB) (address : Address) :
    (ensureAccount state address).view = state.view := by
  unfold ensureAccount
  cases hexist : state.exist address with
  | true => simp
  | false =>
    have habsent : state.objects address = none := by simpa [StateDB.exist] using hexist
    have hfresh : state.view address = StateObject.fresh := by simp [StateDB.view, habsent]
    have hnew : { StateObject.fresh with balance := (state.view address).balance } =
        state.view address := by simp [hfresh, StateObject.fresh]
    simp [StateDB.view_createAccount, hnew]

theorem exist_ensureAccount (state : StateDB) (address : Address) :
    (ensureAccount state address).exist address = true := by
  unfold ensureAccount
  cases hexist : state.exist address with
  | true => simpa using hexist
  | false => simp [StateDB.createAccount, StateDB.createObject, StateDB.exist_install]

theorem ensureAccount_of_exist {state : StateDB} {address : Address}
    (hexist : state.exist address = true) : ensureAccount state address = state := by
  simp [ensureAccount, hexist]

@[simp]
theorem getBalance_ensureAccount (state : StateDB) (address : Address) :
    (ensureAccount state address).getBalance = state.getBalance := by
  funext observed
  simp [StateDB.getBalance]

@[simp]
theorem getNonce_ensureAccount (state : StateDB) (address : Address) :
    (ensureAccount state address).getNonce = state.getNonce := by
  funext observed
  simp [StateDB.getNonce]

@[simp]
theorem standing_ensureAccount (state : StateDB) (address : Address) :
    (ensureAccount state address).standing = state.standing := by
  funext observed
  simp [StateDB.standing]

theorem steady_ensureAccount {state : StateDB} {observed : Address}
    (hnonce : (state.standing observed).nonce ≠ 0) (address : Address) :
    StateDB.Steady state (ensureAccount state address) observed := by
  unfold ensureAccount
  split_ifs with hexist
  · exact .refl _ _
  · refine StateDB.steady_install_of_ne ?_ _ _
    rintro rfl
    exact hexist (StateDB.exist_of_nonce hnonce)

theorem reports_ensureAccount (state : StateDB) (address : Address) :
    (ensureAccount state address).Reports address ↔ state.Reports address := by
  unfold ensureAccount StateDB.Reports
  cases hexist : state.exist address with
  | true => simp [hexist]
  | false => simp [StateDB.createAccount, StateDB.createObject, StateDB.install, hexist]

/-- The nonce and gas tests of `preCheck`, read off the state before the transaction. -/
structure PaysGas (state : StateDB) (msg : Message) : Prop where
  nonce_eq : state.getNonce msg.sender = msg.nonce
  gas_lt : msg.gas < 2 ^ 64
  cost_le : ((msg.gas * msg.gasPrice : ℕ) : ℤ) ≤ state.getBalance msg.sender

/-- The state in which the whole gas limit has been paid for. -/
def bought (state : StateDB) (msg : Message) : StateDB :=
  (ensureAccount state msg.sender).subBalance msg.sender ((msg.gas * msg.gasPrice : ℕ) : ℤ)

@[simp]
theorem standing_bought (state : StateDB) (msg : Message) :
    (bought state msg).standing = state.standing := by
  simp [bought]

theorem steady_bought {state : StateDB} {observed : Address}
    (hnonce : (state.standing observed).nonce ≠ 0) (msg : Message) :
    StateDB.Steady state (bought state msg) observed :=
  (steady_ensureAccount hnonce _).trans
    (StateDB.steady_subBalance (by rwa [standing_ensureAccount]) _)

theorem exist_bought (state : StateDB) (msg : Message) :
    (bought state msg).exist msg.sender = true := StateDB.exist_subBalance _

theorem preCheck_of_paysGas {state : StateDB} {msg : Message} (hpays : PaysGas state msg) :
    preCheck state msg = (bought state msg, .ok msg.gas) := by
  have hensure := ensureAccount_of_exist (exist_ensureAccount state msg.sender)
  have hnonce : (ensureAccount state msg.sender).getNonce msg.sender = msg.nonce := by
    simpa using hpays.nonce_eq
  have hcost : ¬ (ensureAccount state msg.sender).getBalance msg.sender <
      ((msg.gas * msg.gasPrice : ℕ) : ℤ) := by
    simpa using hpays.cost_le
  have hgas : ¬ 2 ^ 64 ≤ msg.gas := not_le.mpr hpays.gas_lt
  simp only [preCheck, hnonce, lt_irrefl, if_false, buyGas, hgas, hensure, hcost, bought]

theorem preCheck_of_not_paysGas {state : StateDB} {msg : Message} (hpays : ¬ PaysGas state msg) :
    ∃ error, preCheck state msg = (ensureAccount state msg.sender, .error error) := by
  have hensure := ensureAccount_of_exist (exist_ensureAccount state msg.sender)
  unfold preCheck
  simp only [getNonce_ensureAccount]
  split_ifs with hhigh hlow
  · exact ⟨_, rfl⟩
  · exact ⟨_, rfl⟩
  · unfold buyGas
    simp only [hensure, getBalance_ensureAccount]
    split_ifs with hgas hcost
    · exact ⟨_, rfl⟩
    · exact ⟨_, rfl⟩
    · exact absurd ⟨by omega, by omega, by omega⟩ hpays

/-- The price of the message before any code runs. -/
def messageGas (evm : EVM) (config : ChainConfig) (msg : Message) : ℕ :=
  intrinsicGas msg.data msg.recipient.isNone (config.isHomestead evm.context.blockNumber)

section Exits

variable {evm : EVM} {config : ChainConfig} {state : StateDB} {msg : Message}

theorem transitionDb_of_not_paysGas (evm : EVM) (config : ChainConfig)
    (hpays : ¬ PaysGas state msg) :
    ∃ error, transitionDb evm config state msg =
      ⟨ensureAccount state msg.sender, [], none, none, some error⟩ := by
  obtain ⟨error, hcheck⟩ := preCheck_of_not_paysGas hpays
  exact ⟨error, by simp [transitionDb, hcheck]⟩

/-- Gas that does not cover the intrinsic price is kept: the purchase is not undone. -/
theorem transitionDb_of_lt_intrinsic (hpays : PaysGas state msg)
    (hlow : msg.gas < messageGas evm config msg) :
    transitionDb evm config state msg =
      ⟨bought state msg, [], none, none, some .outOfGas⟩ := by
  have hensure := ensureAccount_of_exist (exist_bought state msg)
  have hlow' : msg.gas < intrinsicGas msg.data msg.recipient.isNone
      (config.isHomestead evm.context.blockNumber) := hlow
  simp [transitionDb, preCheck_of_paysGas hpays, hensure, hlow']

/-- The execution step of a transition that has paid for its gas. -/
def executed (evm : EVM) (config : ChainConfig) (state : StateDB) (msg : Message) : CallResult :=
  execute evm (bought state msg) msg (msg.gas - messageGas evm config msg)

/-- The gas that the execution leaves to the sender. -/
def unusedGas (evm : EVM) (config : ChainConfig) (state : StateDB) (msg : Message) : ℕ :=
  remainingGas evm msg (executed evm config state msg)

/-- The result of a transition whose execution the machine did not refuse. -/
def settled (evm : EVM) (config : ChainConfig) (state : StateDB) (msg : Message) :
    TransitionResult :=
  ⟨settle evm msg (executed evm config state msg).state (unusedGas evm config state msg),
    (executed evm config state msg).ret, some ((msg.gas : ℤ) - unusedGas evm config state msg),
    (executed evm config state msg).err, none⟩

theorem transitionDb_of_intrinsic_le (hpays : PaysGas state msg)
    (hhigh : messageGas evm config msg ≤ msg.gas) :
    transitionDb evm config state msg =
      if (executed evm config state msg).err = some .insufficientBalance then
        ⟨(executed evm config state msg).state, [], none, (executed evm config state msg).err, none⟩
      else settled evm config state msg := by
  have hensure := ensureAccount_of_exist (exist_bought state msg)
  have hgas := hpays.gas_lt
  have hsmall : ¬ 2 ^ 64 ≤ intrinsicGas msg.data msg.recipient.isNone
      (config.isHomestead evm.context.blockNumber) := by
    unfold messageGas at hhigh
    omega
  have hcovered : ¬ msg.gas < intrinsicGas msg.data msg.recipient.isNone
      (config.isHomestead evm.context.blockNumber) := not_lt.mpr hhigh
  simp only [transitionDb, preCheck_of_paysGas hpays, hensure, hsmall, hcovered, if_false]
  rfl

theorem getBalance_bought (state : StateDB) (msg : Message) :
    (bought state msg).getBalance msg.sender =
      state.getBalance msg.sender - ((msg.gas * msg.gasPrice : ℕ) : ℤ) := by
  unfold bought
  rw [StateDB.getBalance_subBalance, Foundation.Ledger.credit_apply, getBalance_ensureAccount,
    Foundation.Ledger.share_self, sub_eq_add_neg]

/-- At the top level the machine refuses a message exactly when the purchase of gas has left less
than the transferred value. -/
theorem executed_insufficientBalance_iff (hdepth : evm.depth = 0) :
    (executed evm config state msg).err = some .insufficientBalance ↔
      state.getBalance msg.sender < ((msg.gas * msg.gasPrice : ℕ) : ℤ) + msg.value := by
  have hbalance := getBalance_bought state msg
  unfold executed execute
  cases hrecipient : msg.recipient with
  | none =>
    simp only [create_insufficientBalance_iff hdepth, hbalance]
    omega
  | some recipient =>
    simp only [call_insufficientBalance_iff hdepth, getBalance_ensureAccount, getBalance_bumpNonce,
      hbalance]
    omega

/-- A creation whose value is covered gets past the guards of `Create`. -/
theorem execute_of_none (hdepth : evm.depth = 0) {gas : ℕ}
    (hcan : (msg.value : ℤ) ≤ state.getBalance msg.sender) (hrecipient : msg.recipient = none) :
    let result := createContract evm (bumpNonce state msg.sender) msg.sender
      (evm.vm.createAddress msg.sender (state.getNonce msg.sender) msg.data) msg.data gas msg.value
    execute evm state msg gas = ⟨result.state, result.ret, result.gas, result.err⟩ := by
  have htransfer : canTransfer state msg.sender msg.value = true := by
    simpa [canTransfer] using hcan
  simp only [execute, hrecipient, create_of_canTransfer hdepth msg.data htransfer]

/-- A call whose value is covered gets past the guards of `Call`. -/
theorem execute_of_some (hdepth : evm.depth = 0) {gas : ℕ} {recipient : Address}
    (hcan : (msg.value : ℤ) ≤ state.getBalance msg.sender)
    (hrecipient : msg.recipient = some recipient) :
    let called := ensureAccount (bumpNonce state msg.sender) recipient
    execute evm state msg gas =
      callContract evm called called msg.sender recipient msg.data gas msg.value := by
  have htransfer : canTransfer (ensureAccount (bumpNonce state msg.sender) recipient) msg.sender
      msg.value = true := by
    simpa [canTransfer] using hcan
  simp only [execute, hrecipient,
    call_of_canTransfer hdepth msg.data (exist_ensureAccount _ _) htransfer]

end Exits

/-! ## A concrete environment -/

/-- An environment in which every acceptable signature recovers to `signer`, with all forks active
from block zero on, chain id 1 and the given byte-code interpreter. -/
def sampleEnvironment (signer : Address)
    (interpreter : Context → StateDB → Contract → Bytes → RunResult) : Environment where
  config := ⟨some 1, some 0, some 0, some 0, some 0⟩
  vm :=
    { createAddress := fun _ nonce _ ↦ BitVec.ofNat 160 (1000 + nonce)
      ecrecover := ⟨fun _ ↦ 3000, fun _ ↦ .ok []⟩
      sha256hash := ⟨fun _ ↦ 60, fun _ ↦ .ok []⟩
      ripemd160hash := ⟨fun _ ↦ 600, fun _ ↦ .ok []⟩
      dataCopy := ⟨fun _ ↦ 15, fun input ↦ .ok input⟩
      interpreter := interpreter
      isJSONObject := fun _ ↦ false
      trieHash := fun _ ↦ 0 }
  recovery :=
    { plainHash := fun tx ↦ BitVec.ofNat 256 tx.accountNonce
      chainHash := fun chainId tx ↦ BitVec.ofNat 256 (tx.accountNonce + chainId)
      ecrecover := fun _ _ _ _ ↦ some signer
      txHash := fun tx ↦ BitVec.ofNat 256 tx.accountNonce }
  vmConfig := ⟨false, 0⟩

/-- An interpreter whose runs stop at once. -/
def stopInterpreter (_ : Context) (state : StateDB) (contract : Contract) (_ : Bytes) : RunResult :=
  ⟨state, [], contract.gas, none⟩

/-- A state with a single externally owned account. -/
def soleAccount (address : Address) (balance : ℤ) : StateDB :=
  StateDB.new fun observed ↦
    if observed = address then some ⟨0, balance, [], fun _ ↦ 0⟩ else none

/-- A plain transfer signed without replay protection. -/
def sampleTransfer (recipient : Address) (price gasLimit amount : ℕ) : Transaction :=
  ⟨0, price, gasLimit, some recipient, amount, [], 27, 1, 1⟩

def sampleHeader (coinbase : Address) : Header := ⟨1, 0, coinbase, 5000000000, 131072⟩

end LkChain.Ethereum.Transition
