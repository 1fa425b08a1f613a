import LkChain.Ethereum.Transactions

/-!
# Message calls and contract creation

`Call` and `Create` of `core/vm/evm.go`, with the proportional fee that is taken before the code
runs and given back when it reverts. The byte-code interpreter loop and the bodies of the four
precompiled contracts are parameters of the model, collected in `VM`; what is known about them is
stated as hypotheses where it is used. A run reports its own errors, which never include the
balance and depth errors of `Call` and `Create`: the call opcodes turn those into a zero on the
stack.
-/

namespace LkChain.Ethereum.Calls

open State Transactions

/-- Errors with which a run of contract code can end. -/
inductive RunError where
  | executionReverted
  | outOfGas
  | faulty
deriving DecidableEq, Repr

/-- Errors of `Call` and `Create`. -/
inductive VMError where
  | depth
  | insufficientBalance
  | contractAddressCollision
  | outOfGas
  | codeStoreOutOfGas
  | maxCodeSizeExceeded
  | run (error : RunError)
deriving DecidableEq, Repr

/-- The read-only surroundings of a message. -/
structure Context where
  origin : Address
  gasPrice : ℕ
  coinbase : Address
  gasLimit : ℕ
  blockNumber : ℕ
  time : ℕ
  difficulty : ℤ
  nonce : ℕ

structure Contract where
  callerAddress : Address
  self : Address
  code : Bytes
  codeAddr : Option Address
  gas : ℕ
  value : ℕ

structure RunResult where
  state : StateDB
  ret : Bytes
  gas : ℕ
  err : Option RunError

structure PrecompiledContract where
  requiredGas : Bytes → ℕ
  run : Bytes → Except RunError Bytes

/-- The parts of the virtual machine that are parameters of the model. -/
structure VM where
  createAddress : Address → ℕ → Bytes → Address
  ecrecover : PrecompiledContract
  sha256hash : PrecompiledContract
  ripemd160hash : PrecompiledContract
  dataCopy : PrecompiledContract
  interpreter : Context → StateDB → Contract → Bytes → RunResult
  /-- `json.Unmarshal` of the payload into an object succeeds. -/
  isJSONObject : Bytes → Bool
  /-- Root hash of the account trie. -/
  trieHash : StateDB → Hash

/-- `vm.Config`, as far as calls read it. -/
structure Config where
  noRecursion : Bool
  feeUpdateTime : ℕ

structure EVM where
  vm : VM
  context : Context
  depth : ℕ
  config : Config

def callCreateDepth : ℕ := 1024
def maxCodeSize : ℕ := 24576
def createDataGas : ℕ := 200

def VM.precompiledContractsHomestead (vm : VM) (address : Address) : Option PrecompiledContract :=
  if address = 1 then some vm.ecrecover
  else if address = 2 then some vm.sha256hash
  else if address = 3 then some vm.ripemd160hash
  else if address = 4 then some vm.dataCopy
  else none

def runPrecompiledContract (p : PrecompiledContract) (state : StateDB) (contract : Contract)
    (input : Bytes) : RunResult :=
  let gas := p.requiredGas input
  if contract.gas < gas then ⟨state, [], contract.gas, some .outOfGas⟩
  else
    match p.run input with
    | .ok ret => ⟨state, ret, contract.gas - gas, none⟩
    | .error error => ⟨state, [], contract.gas - gas, some error⟩

/-- `Interpreter.Run`: there is nothing to do without code. -/
def interpreterRun (evm : EVM) (state : StateDB) (contract : Contract) (input : Bytes) :
    RunResult :=
  if contract.code.length = 0 then ⟨state, [], contract.gas, none⟩
  else evm.vm.interpreter evm.context state contract input

/-- `run`: a precompiled contract at the code address takes precedence over the byte code. -/
def run (evm : EVM) (state : StateDB) (contract : Contract) (input : Bytes) : RunResult :=
  match contract.codeAddr.bind evm.vm.precompiledContractsHomestead with
  | some p => runPrecompiledContract p state contract input
  | none => interpreterRun evm state contract input

/-- What `run` is called with. -/
structure Frame where
  state : StateDB
  contract : Contract
  input : Bytes

def Frame.run (evm : EVM) (frame : Frame) : RunResult :=
  Calls.run evm frame.state frame.contract frame.input

def canTransfer (state : StateDB) (address : Address) (amount : ℕ) : Bool :=
  (amount : ℤ) ≤ state.getBalance address

def transfer (state : StateDB) (sender recipient : Address) (amount : ℕ) : StateDB :=
  (state.subBalance sender amount).addBalance recipient amount

/-- Whether the proportional fee applies to a message that carries `value` to `code`. -/
def isFeeUpdate (evm : EVM) (code : Bytes) (value : ℕ) : Bool :=
  evm.config.feeUpdateTime ≠ 0 && evm.config.feeUpdateTime ≤ evm.context.time &&
    0 < code.length && 0 < value

/-- The fee taken up front, zero when it does not apply. -/
def totalFee (evm : EVM) (code : Bytes) (value : ℕ) : ℕ :=
  if isFeeUpdate evm code value then calNewFee value else 0

structure CallResult where
  state : StateDB
  ret : Bytes
  gas : ℕ
  err : Option VMError

/-- The end of `Call` and `Create` after a failed run: back to the snapshot, and the gas is gone
unless the code reverted, in which case the fee comes back as well. -/
def leftOverGas (gas fee : ℕ) (error : RunError) : ℕ :=
  if error = .executionReverted then (gas + fee) % 2 ^ 64 else 0

/-- The run that `Call` starts: the value is transferred and the fee is taken from the gas. -/
def callFrame (evm : EVM) (state : StateDB) (caller address : Address) (input : Bytes)
    (gas value : ℕ) : Frame :=
  let code := state.getCode address
  ⟨transfer state caller address value,
    ⟨caller, address, code, some address, gas - totalFee evm code value, value⟩, input⟩

/-- The second half of `Call`, from the account lookup on. `snapshot` is the state before an
account was created for the callee. -/
def callContract (evm : EVM) (snapshot state : StateDB) (caller address : Address) (input : Bytes)
    (gas value : ℕ) : CallResult :=
  let fee := totalFee evm (state.getCode address) value
  if gas < fee then ⟨state, [], 0, some .outOfGas⟩
  else
    let result := (callFrame evm state caller address input gas value).run evm
    match result.err with
    | none => ⟨result.state, result.ret, result.gas, none⟩
    | some error =>
      ⟨result.state.revertToSnapshot snapshot, result.ret, leftOverGas result.gas fee error,
        some (.run error)⟩

def call (evm : EVM) (state : StateDB) (caller address : Address) (input : Bytes)
    (gas value : ℕ) : CallResult :=
  if evm.config.noRecursion ∧ 0 < evm.depth then ⟨state, [], gas, none⟩
  else if callCreateDepth < evm.depth then ⟨state, [], gas, some .depth⟩
  else if !canTransfer state caller value then ⟨state, [], gas, some .insufficientBalance⟩
  else if !state.exist address then
    if (evm.vm.precompiledContractsHomestead address).isNone ∧ value = 0 then
      ⟨state, [], gas, none⟩
    else callContract evm state (state.createAccount address) caller address input gas value
  else callContract evm state state caller address input gas value

structure CreateResult where
  state : StateDB
  ret : Bytes
  contractAddr : Address
  gas : ℕ
  err : Option VMError

/-- What `Create` does with the outcome of the initialisation code: store the returned code if its
size and price allow, otherwise go back to the snapshot. -/
def storeCode (snapshot : StateDB) (contractAddr : Address) (fee : ℕ) (result : RunResult) :
    CreateResult :=
  let reverted := result.state.revertToSnapshot snapshot
  match result.err with
  | some error =>
    ⟨reverted, result.ret, contractAddr, leftOverGas result.gas fee error, some (.run error)⟩
  | none =>
    if maxCodeSize < result.ret.length then
      ⟨reverted, result.ret, contractAddr, 0, some .maxCodeSizeExceeded⟩
    else
      let dataGas := result.ret.length * createDataGas
      if result.gas < dataGas then
        ⟨reverted, result.ret, contractAddr, 0, some .codeStoreOutOfGas⟩
      else
        ⟨result.state.setCode contractAddr result.ret, result.ret, contractAddr,
          result.gas - dataGas, none⟩

/-- The account of a new contract. -/
def createdAccount (state : StateDB) (contractAddr : Address) : StateDB :=
  (state.createAccount contractAddr).setNonce contractAddr 1

/-- The run of the initialisation code that `Create` starts. -/
def createFrame (evm : EVM) (state : StateDB) (caller contractAddr : Address) (code : Bytes)
    (gas value : ℕ) : Frame :=
  ⟨transfer (createdAccount state contractAddr) caller contractAddr value,
    ⟨caller, contractAddr, code, some contractAddr, gas - totalFee evm code value, value⟩, []⟩

/-- The second half of `Create`, from the collision test on. An unpayable fee returns without a
look back at the snapshot, and a recursion ban returns the full gas. -/
def createContract (evm : EVM) (state : StateDB) (caller contractAddr : Address) (code : Bytes)
    (gas value : ℕ) : CreateResult :=
  if state.getNonce contractAddr ≠ 0 ∨ state.getCode contractAddr ≠ [] then
    ⟨state, [], 0, 0, some .contractAddressCollision⟩
  else
    let fee := totalFee evm code value
    if gas < fee then ⟨createdAccount state contractAddr, [], contractAddr, 0, some .outOfGas⟩
    else
      let frame := createFrame evm state caller contractAddr code gas value
      if evm.config.noRecursion ∧ 0 < evm.depth then ⟨frame.state, [], contractAddr, gas, none⟩
      else storeCode state contractAddr fee (frame.run evm)

/-- The state in which the current nonce of an account has been used up. -/
def bumpNonce (state : StateDB) (address : Address) : StateDB :=
  state.setNonce address ((state.getNonce address + 1) % 2 ^ 64)

/-- `EVM.Create`: the caller's nonce is raised before the snapshot is taken. -/
def create (evm : EVM) (state : StateDB) (caller : Address) (code : Bytes) (gas value : ℕ) :
    CreateResult :=
  if callCreateDepth < evm.depth then ⟨state, [], 0, gas, some .depth⟩
  else if !canTransfer state caller value then ⟨state, [], 0, gas, some .insufficientBalance⟩
  else
    createContract evm (bumpNonce state caller) caller
      (evm.vm.createAddress caller (state.getNonce caller) code) code gas value

/-! ## Standing

Transfers move balances only, and using up a nonce concerns one account. -/

@[simp]
theorem standing_transfer (state : StateDB) (sender recipient : Address) (amount : ℕ) :
    (transfer state sender recipient amount).standing = state.standing := by
  simp [transfer]

theorem standing_bumpNonce_self (state : StateDB) (address : Address) :
    (bumpNonce state address).standing address =
      { state.standing address with nonce := (state.getNonce address + 1) % 2 ^ 64 } := by
  simp [bumpNonce, StateDB.standing, StateObject.standing]

theorem standing_bumpNonce_of_ne {state : StateDB} {address observed : Address}
    (hne : observed ≠ address) :
    (bumpNonce state address).standing observed = state.standing observed :=
  StateDB.standing_of_update (StateDB.view_setNonce _) hne

theorem code_bumpNonce (state : StateDB) (address observed : Address) :
    ((bumpNonce state address).standing observed).code = (state.standing observed).code ∧
      ((bumpNonce state address).standing observed).suicided =
        (state.standing observed).suicided := by
  by_cases hsame : observed = address
  · subst hsame
    rw [standing_bumpNonce_self]
    exact ⟨rfl, rfl⟩
  · rw [standing_bumpNonce_of_ne hsame]
    exact ⟨rfl, rfl⟩

theorem standing_createdAccount_of_ne {state : StateDB} {address observed : Address}
    (hne : observed ≠ address) :
    (createdAccount state address).standing observed = state.standing observed := by
  unfold createdAccount
  rw [StateDB.standing_of_update (StateDB.view_setNonce _) hne,
    StateDB.standing_of_update StateDB.view_createAccount hne]

/-! ## The ends of a call and of a creation -/

section Ends

variable (evm : EVM) (snapshot state : StateDB) (caller address : Address) (input code : Bytes)
  (gas value : ℕ)

/-- The three ends of `callContract`. -/
inductive CallEnd : CallResult → Prop where
  | unpaid (hfee : gas < totalFee evm (state.getCode address) value) :
      CallEnd ⟨state, [], 0, some .outOfGas⟩
  | returned (result : RunResult) (hfee : totalFee evm (state.getCode address) value ≤ gas)
      (hresult : (callFrame evm state caller address input gas value).run evm = result)
      (hrun : result.err = none) : CallEnd ⟨result.state, result.ret, result.gas, none⟩
  | failed (result : RunResult) (hfee : totalFee evm (state.getCode address) value ≤ gas)
      (hresult : (callFrame evm state caller address input gas value).run evm = result)
      (error : RunError) (hrun : result.err = some error) :
      CallEnd ⟨result.state.revertToSnapshot snapshot, result.ret,
        leftOverGas result.gas (totalFee evm (state.getCode address) value) error,
        some (.run error)⟩

theorem callContract_end :
    CallEnd evm snapshot state caller address input gas value
      (callContract evm snapshot state caller address input gas value) := by
  unfold callContract
  simp only
  split_ifs with hfee
  · exact .unpaid hfee
  · split
    · exact .returned _ (not_lt.mp hfee) rfl ‹_›
    · exact .failed _ (not_lt.mp hfee) rfl _ ‹_›

/-- The ends of `createContract` outside a recursion ban. -/
inductive CreateEnd : CreateResult → Prop where
  | collision (hused : state.getNonce address ≠ 0 ∨ state.getCode address ≠ []) :
      CreateEnd ⟨state, [], 0, 0, some .contractAddressCollision⟩
  | unpaid (hfree : state.getNonce address = 0) (hfee : gas < totalFee evm code value) :
      CreateEnd ⟨createdAccount state address, [], address, 0, some .outOfGas⟩
  | failed (result : RunResult) (hfee : totalFee evm code value ≤ gas)
      (hresult : (createFrame evm state caller address code gas value).run evm = result)
      (error : VMError) (left : ℕ) (herror : error ≠ .insufficientBalance)
      (hleft : left ≤ result.gas + totalFee evm code value) :
      CreateEnd ⟨result.state.revertToSnapshot state, result.ret, address, left, some error⟩
  | stored (result : RunResult) (hfree : state.getNonce address = 0)
      (hfee : totalFee evm code value ≤ gas)
      (hresult : (createFrame evm state caller address code gas value).run evm = result)
      (hrun : result.err = none) :
      CreateEnd ⟨result.state.setCode address result.ret, result.ret, address,
        result.gas - result.ret.length * createDataGas, none⟩

theorem leftOverGas_le (gas fee : ℕ) (error : RunError) :
    leftOverGas gas fee error ≤ gas + fee := by
  unfold leftOverGas
  split_ifs
  · exact Nat.mod_le _ _
  · exact Nat.zero_le _

theorem createContract_end (hdepth : evm.depth = 0) :
    CreateEnd evm state caller address code gas value
      (createContract evm state caller address code gas value) := by
  unfold createContract
  simp only [hdepth, lt_irrefl, and_false, if_false]
  split_ifs with hused hfee
  · exact .collision hused
  · exact .unpaid (by simpa using fun h ↦ hused (.inl h)) hfee
  · have hfree : state.getNonce address = 0 := by simpa using fun h ↦ hused (.inl h)
    have hpaid := not_lt.mp hfee
    unfold storeCode
    split
    · exact .failed _ hpaid rfl _ _ (by simp) (leftOverGas_le _ _ _)
    · simp only
      split_ifs
      · exact .failed _ hpaid rfl _ _ (by simp) (Nat.zero_le _)
      · exact .failed _ hpaid rfl _ _ (by simp) (Nat.zero_le _)
      · exact .stored _ hfree hpaid rfl ‹_›

end Ends

/-! ## The guards of the top level

At depth zero the only guard is the transfer test, and it alone reports the balance error. -/

section Balance

variable {evm : EVM} {state : StateDB} {caller : Address} {gas value : ℕ}

@[simp]
theorem getBalance_bumpNonce (address : Address) :
    (bumpNonce state address).getBalance = state.getBalance := StateDB.getBalance_setNonce _

theorem canTransfer_eq_false_iff {address : Address} :
    canTransfer state address value = false ↔ state.getBalance address < value := by
  simp [canTransfer]

theorem call_of_canTransfer (hdepth : evm.depth = 0) {address : Address} (input : Bytes)
    (hexist : state.exist address = true) (hcan : canTransfer state caller value = true) :
    call evm state caller address input gas value =
      callContract evm state state caller address input gas value := by
  simp [call, hdepth, hexist, hcan]

theorem create_of_canTransfer (hdepth : evm.depth = 0) (code : Bytes)
    (hcan : canTransfer state caller value = true) :
    create evm state caller code gas value =
      createContract evm (bumpNonce state caller) caller
        (evm.vm.createAddress caller (state.getNonce caller) code) code gas value := by
  simp [create, hdepth, hcan]

theorem callContract_err_ne (snapshot : StateDB) (address : Address) (input : Bytes) :
    (callContract evm snapshot state caller address input gas value).err ≠
      some .insufficientBalance := by
  have hend := callContract_end evm snapshot state caller address input gas value
  generalize callContract evm snapshot state caller address input gas value = result at hend
  cases hend <;> simp

theorem createContract_err_ne (hdepth : evm.depth = 0) (contractAddr : Address) (code : Bytes) :
    (createContract evm state caller contractAddr code gas value).err ≠
      some .insufficientBalance := by
  have hend := createContract_end evm state caller contractAddr code gas value hdepth
  generalize createContract evm state caller contractAddr code gas value = result at hend
  cases hend with
  | failed result hfee hresult error left herror => simpa using herror
  | _ => simp

theorem call_insufficientBalance_iff (hdepth : evm.depth = 0) (address : Address) (input : Bytes) :
    (call evm state caller address input gas value).err = some .insufficientBalance ↔
      state.getBalance caller < value := by
  unfold call
  simp only [hdepth, lt_irrefl, and_false, Nat.not_lt_zero, if_false]
  cases hcan : canTransfer state caller value with
  | false => simpa using canTransfer_eq_false_iff.mp hcan
  | true =>
    have hnot : ¬ state.getBalance caller < value := by
      rw [← canTransfer_eq_false_iff, hcan]
      simp
    simp only [Bool.not_true, Bool.false_eq_true, if_false, hnot, iff_false]
    split_ifs
    · simp
    · exact callContract_err_ne _ _ _
    · exact callContract_err_ne _ _ _

theorem create_insufficientBalance_iff (hdepth : evm.depth = 0) (code : Bytes) :
    (create evm state caller code gas value).err = some .insufficientBalance ↔
      state.getBalance caller < value := by
  cases hcan : canTransfer state caller value with
  | false =>
    have hlt := canTransfer_eq_false_iff.mp hcan
    simp [create, hdepth, hcan, hlt]
  | true =>
    have hnot : ¬ state.getBalance caller < value := by
      rw [← canTransfer_eq_false_iff, hcan]
      simp
    rw [create_of_canTransfer hdepth code hcan]
    simpa only [hnot, iff_false] using createContract_err_ne hdepth _ _

end Balance

end LkChain.Ethereum.Calls
