import LkChain.Ethereum.Accounting

/-!
# Messages that fail

What `Call` and `Create` leave of the state and of the gas, at every depth. A failed run goes back
to the snapshot, and its gas is gone unless the code reverted; then the proportional fee comes back
with the gas of the run. The fee is checked after `Create` has made the account of the new contract,
and a creation that cannot pay it returns without going back to the snapshot: the account stays,
with nonce 1.
-/

namespace LkChain.Ethereum.Failures

open State Transactions Calls Transition Accounting

/-! ## Where messages return -/

section Exits

variable (evm : EVM) (state : StateDB) (gas fee : ℕ)

/-- Where `Call` can return. A run starts with the gas that the fee has left. -/
inductive CallExit (value : ℕ) : CallResult → Prop where
  | banned (hbanned : evm.config.noRecursion = true ∧ 0 < evm.depth) :
      CallExit value ⟨state, [], gas, none⟩
  | guarded (error : VMError) (hguard : error = .depth ∨ error = .insufficientBalance) :
      CallExit value ⟨state, [], gas, some error⟩
  | absent (hvalue : value = 0) : CallExit value ⟨state, [], gas, none⟩
  | unpaid : CallExit value ⟨state, [], 0, some .outOfGas⟩
  | returned (frame : Frame) (hgas : frame.contract.gas + fee = gas)
      (hrun : (frame.run evm).err = none) :
      CallExit value ⟨(frame.run evm).state, (frame.run evm).ret, (frame.run evm).gas, none⟩
  | failed (frame : Frame) (hgas : frame.contract.gas + fee = gas) (error : RunError)
      (hrun : (frame.run evm).err = some error) :
      CallExit value ⟨(frame.run evm).state.revertToSnapshot state, (frame.run evm).ret,
        leftOverGas (frame.run evm).gas fee error, some (.run error)⟩

/-- The ways out of the initialisation code: it failed, what it returned cannot be stored, or it is
the code of the contract. -/
inductive StoreExit (snapshot : StateDB) (contractAddr : Address) (result : RunResult) :
    CreateResult → Prop where
  | failed (error : RunError) (hrun : result.err = some error) :
      StoreExit snapshot contractAddr result
        ⟨result.state.revertToSnapshot snapshot, result.ret, contractAddr,
          leftOverGas result.gas fee error, some (.run error)⟩
  | lost (error : VMError) (hlost : error = .maxCodeSizeExceeded ∨ error = .codeStoreOutOfGas) :
      StoreExit snapshot contractAddr result
        ⟨result.state.revertToSnapshot snapshot, result.ret, contractAddr, 0, some error⟩
  | stored (hrun : result.err = none) :
      StoreExit snapshot contractAddr result
        ⟨result.state.setCode contractAddr result.ret, result.ret, contractAddr,
          result.gas - result.ret.length * createDataGas, none⟩

end Exits

/-- The address of a contract that `caller` creates next. -/
def nextAddress (evm : EVM) (state : StateDB) (caller : Address) (code : Bytes) : Address :=
  evm.vm.createAddress caller (state.getNonce caller) code

/-- The creation gets as far as the fee and cannot pay it. -/
structure Unpaid (evm : EVM) (state : StateDB) (caller : Address) (code : Bytes)
    (gas value : ℕ) : Prop where
  depth : evm.depth ≤ callCreateDepth
  transfer : canTransfer state caller value = true
  nonce : (bumpNonce state caller).getNonce (nextAddress evm state caller code) = 0
  fresh : (bumpNonce state caller).getCode (nextAddress evm state caller code) = []
  fee : gas < totalFee evm code value

/-- Where `Create` can return. -/
inductive CreateExit (evm : EVM) (state : StateDB) (caller : Address) (code : Bytes)
    (gas value : ℕ) : CreateResult → Prop where
  | guarded (error : VMError) (hguard : error = .depth ∨ error = .insufficientBalance) :
      CreateExit evm state caller code gas value ⟨state, [], 0, gas, some error⟩
  | collision : CreateExit evm state caller code gas value
      ⟨bumpNonce state caller, [], 0, 0, some .contractAddressCollision⟩
  | unpaid (hunpaid : Unpaid evm state caller code gas value) :
      CreateExit evm state caller code gas value
        ⟨createdAccount (bumpNonce state caller) (nextAddress evm state caller code), [],
          nextAddress evm state caller code, 0, some .outOfGas⟩
  | banned (hbanned : evm.config.noRecursion = true ∧ 0 < evm.depth) (left : StateDB) :
      CreateExit evm state caller code gas value
        ⟨left, [], nextAddress evm state caller code, gas, none⟩
  | ran (frame : Frame) (hgas : frame.contract.gas + totalFee evm code value = gas)
      (result : CreateResult)
      (hstore : StoreExit (totalFee evm code value) (bumpNonce state caller)
        (nextAddress evm state caller code) (frame.run evm) result) :
      CreateExit evm state caller code gas value result

section Returns

variable {evm : EVM} {state : StateDB} {caller address : Address} {input code : Bytes}
  {gas value : ℕ}

theorem callContract_exit {ready : StateDB} {fee : ℕ}
    (hfee : totalFee evm (ready.getCode address) value = fee) (hstate : ready = state ∨ fee = 0) :
    CallExit evm state gas fee value
      (callContract evm state ready caller address input gas value) := by
  have hend := callContract_end evm state ready caller address input gas value
  generalize callContract evm state ready caller address input gas value = result at hend
  have hframe : fee ≤ gas →
      (callFrame evm ready caller address input gas value).contract.gas + fee = gas := by
    intro hpaid
    show gas - totalFee evm (ready.getCode address) value + fee = gas
    rw [hfee, Nat.sub_add_cancel hpaid]
  cases hend with
  | unpaid hunpaid =>
    rcases hstate with rfl | rfl
    · exact .unpaid
    · exact absurd (hfee ▸ hunpaid) (Nat.not_lt_zero gas)
  | returned result hpaid hresult hrun =>
    subst hresult
    exact .returned _ (hframe (hfee ▸ hpaid)) hrun
  | failed result hpaid hresult error hrun =>
    subst hresult
    rw [hfee]
    exact .failed _ (hframe (hfee ▸ hpaid)) error hrun

/-- An account that was just created has no code to pay a fee for. -/
theorem totalFee_createAccount :
    totalFee evm ((state.createAccount address).getCode address) value = 0 := by
  have hcode : (state.createAccount address).getCode address = [] := by
    simp [StateDB.getCode, StateDB.view_createAccount, StateObject.fresh]
  rw [hcode]
  simp [totalFee, isFeeUpdate]

theorem call_exit :
    CallExit evm state gas (totalFee evm (state.getCode address) value) value
      (call evm state caller address input gas value) := by
  unfold call
  split_ifs with hbanned hdepth hcan hexist habsent
  · exact .banned hbanned
  · exact .guarded _ (.inl rfl)
  · exact .guarded _ (.inr rfl)
  · exact .absent habsent.2
  · have hnone : state.objects address = none := by simpa [StateDB.exist] using hexist
    have hcode : state.getCode address = [] := by
      simp [StateDB.getCode, StateDB.view, hnone, StateObject.fresh]
    have hfree : totalFee evm (state.getCode address) value = 0 := by
      rw [hcode]
      simp [totalFee, isFeeUpdate]
    rw [hfree]
    exact callContract_exit totalFee_createAccount (.inr rfl)
  · exact callContract_exit rfl (.inl rfl)

theorem storeCode_exit {snapshot : StateDB} {contractAddr : Address} {fee : ℕ}
    (result : RunResult) :
    StoreExit fee snapshot contractAddr result (storeCode snapshot contractAddr fee result) := by
  unfold storeCode
  split
  next error hrun => exact .failed error hrun
  next hrun =>
    dsimp only
    split_ifs
    · exact .lost _ (.inl rfl)
    · exact .lost _ (.inr rfl)
    · exact .stored hrun

theorem create_exit :
    CreateExit evm state caller code gas value (create evm state caller code gas value) := by
  unfold create
  split_ifs with hdepth hcan
  · exact .guarded _ (.inl rfl)
  · exact .guarded _ (.inr rfl)
  · unfold createContract
    dsimp only
    split_ifs with hused hfee hbanned
    · exact .collision
    · simp only [ne_eq, not_or, not_not] at hused
      exact .unpaid ⟨not_lt.mp hdepth, by simpa using hcan, hused.1, hused.2, hfee⟩
    · exact .banned hbanned _
    · exact .ran _ (Nat.sub_add_cancel (not_lt.mp hfee)) _ (storeCode_exit _)

end Returns

/-! ## The state -/

section Traces

variable {evm : EVM} {state : StateDB} {caller address : Address} {input code : Bytes}
  {gas value : ℕ}

theorem create_of_unpaid (hunpaid : Unpaid evm state caller code gas value) :
    create evm state caller code gas value =
      ⟨createdAccount (bumpNonce state caller) (nextAddress evm state caller code), [],
        nextAddress evm state caller code, 0, some .outOfGas⟩ := by
  have hfree : ¬ ((bumpNonce state caller).getNonce (nextAddress evm state caller code) ≠ 0 ∨
      (bumpNonce state caller).getCode (nextAddress evm state caller code) ≠ []) := by
    simp [hunpaid.nonce, hunpaid.fresh]
  unfold nextAddress at hfree ⊢
  unfold create
  rw [if_neg (not_lt.mpr hunpaid.depth), hunpaid.transfer, if_neg (by decide)]
  unfold createContract
  dsimp only
  rw [if_neg hfree, if_pos hunpaid.fee]

theorem getNonce_createdAccount (state : StateDB) (address : Address) :
    (createdAccount state address).getNonce address = 1 := by
  simp [createdAccount, StateDB.getNonce]

/-- The state is that of the snapshot in everything that `RevertToSnapshot` restores, which is all
but the entries of the dirty set. -/
def Restored (snapshot state : StateDB) : Prop := state = { snapshot with marks := state.marks }

theorem Restored.getNonce_eq {snapshot : StateDB} (hrestored : Restored snapshot state) :
    state.getNonce = snapshot.getNonce := by
  rw [hrestored]
  rfl

/-- The new account is a trace: its nonce was neither one before nor after the nonce of the caller
was raised. -/
theorem createdAccount_ne (hnonce : (bumpNonce state caller).getNonce address = 0) :
    ¬ Restored state (createdAccount (bumpNonce state caller) address) ∧
      ¬ Restored (bumpNonce state caller) (createdAccount (bumpNonce state caller) address) := by
  have hone := getNonce_createdAccount (bumpNonce state caller) address
  constructor
  · intro hsame
    rw [hsame.getNonce_eq] at hone
    have hraised : ((bumpNonce state caller).standing address).nonce = 0 := hnonce
    by_cases hcaller : address = caller
    · subst hcaller
      rw [standing_bumpNonce_self, hone] at hraised
      exact absurd (show (1 + 1) % 2 ^ 64 = 0 from hraised) (by decide)
    · rw [standing_bumpNonce_of_ne hcaller] at hraised
      exact absurd (hone.symm.trans hraised) Nat.one_ne_zero
  · intro hsame
    rw [hsame.getNonce_eq] at hone
    exact absurd (hone.symm.trans hnonce) Nat.one_ne_zero

end Traces

/-- A failed call leaves the state as it was, as far as `RevertToSnapshot` restores it. A failed
creation leaves it as it was or with the nonce of the caller raised, exactly if it was not the
proportional fee that it could not pay. -/
theorem failed_state_iff (evm : EVM) (state : StateDB) (caller address : Address)
    (input code : Bytes) (gas value : ℕ) :
    ((call evm state caller address input gas value).err ≠ none →
      Restored state (call evm state caller address input gas value).state) ∧
    ((create evm state caller code gas value).err ≠ none →
      (Restored state (create evm state caller code gas value).state ∨
          Restored (bumpNonce state caller) (create evm state caller code gas value).state ↔
        ¬ Unpaid evm state caller code gas value)) := by
  constructor
  · have hexit : CallExit evm state gas (totalFee evm (state.getCode address) value) value
        (call evm state caller address input gas value) := call_exit
    generalize call evm state caller address input gas value = result at hexit
    intro herr
    cases hexit with
    | returned => exact absurd rfl herr
    | _ => rfl
  · intro herr
    constructor
    · rintro hstate hunpaid
      rw [create_of_unpaid hunpaid] at hstate
      obtain ⟨hne, hne'⟩ := createdAccount_ne hunpaid.nonce
      exact hstate.elim hne hne'
    · have hexit : CreateExit evm state caller code gas value
          (create evm state caller code gas value) := create_exit
      generalize create evm state caller code gas value = result at hexit herr
      intro hpaid
      cases hexit with
      | guarded => exact .inl rfl
      | collision => exact .inr rfl
      | unpaid hunpaid => exact absurd hunpaid hpaid
      | banned => exact absurd rfl herr
      | ran frame hgas result hstore =>
        cases hstore with
        | failed => exact .inr rfl
        | lost => exact .inr rfl
        | stored => exact absurd rfl herr

/-- The proportional fee applies to messages of account 7, which can pay for everything else. -/
def feeMachine : EVM :=
  { (sampleEnvironment 7 stopInterpreter).evm { sampleHeader 9 with time := 1 }
      ⟨7, none, 0, 1, 0, 1, [0]⟩ with
    config := ⟨false, 1⟩ }

/-- A creation without gas for the fee fails and leaves an account behind. -/
theorem unpaid_creation_leaves_account :
    (create feeMachine (soleAccount 7 100) 7 [0] 0 1).err = some .outOfGas ∧
      (create feeMachine (soleAccount 7 100) 7 [0] 0 1).contractAddr = 1000 ∧
      (soleAccount 7 100).getNonce 1000 = 0 ∧
      (create feeMachine (soleAccount 7 100) 7 [0] 0 1).state.getNonce 1000 = 1 :=
  ⟨by rfl, by rfl, by rfl, by rfl⟩

/-! ## The gas -/

/-- The errors that `Call` and `Create` can return before they look at the fee. -/
def beforeFee : List VMError := [.depth, .insufficientBalance, .contractAddressCollision]

/-- What becomes of the gas of a message that carries `value` to `code`. -/
structure GasLeft (evm : EVM) (code : Bytes) (gas value : ℕ) (left : ℕ) (err : Option VMError) :
    Prop where
  le : left ≤ gas
  paid : isFeeUpdate evm code value = true → evm.config.noRecursion = false → err = none →
    left + calNewFee value ≤ gas
  reverted : err = some (.run .executionReverted) → ∃ frame : Frame,
    (frame.run evm).err = some .executionReverted ∧
      frame.contract.gas + totalFee evm code value = gas ∧
      left = (frame.run evm).gas + totalFee evm code value
  lost : ∀ error, err = some error → error ∉ beforeFee → error ≠ .run .executionReverted → left = 0

section Gas

variable {evm : EVM} {state : StateDB} {caller address : Address} {input code : Bytes}
  {gas value left : ℕ}

theorem totalFee_of_isFeeUpdate (hupdate : isFeeUpdate evm code value = true) :
    totalFee evm code value = calNewFee value := if_pos hupdate

theorem gasLeft_of_guard {error : VMError}
    (herror : error = .depth ∨ error = .insufficientBalance) :
    GasLeft evm code gas value gas (some error) := by
  rcases herror with rfl | rfl
  · exact ⟨le_rfl, by simp, by simp, by simp [beforeFee]⟩
  · exact ⟨le_rfl, by simp, by simp, by simp [beforeFee]⟩

theorem gasLeft_zero {error : VMError} (herror : error ≠ .run .executionReverted) :
    GasLeft evm code gas value 0 (some error) :=
  ⟨Nat.zero_le _, by simp, fun hreverted ↦ absurd (Option.some.inj hreverted) herror,
    fun _ _ _ _ ↦ rfl⟩

theorem gasLeft_of_paid (hpaid : left + totalFee evm code value ≤ gas) :
    GasLeft evm code gas value left none where
  le := (Nat.le_add_right _ _).trans hpaid
  paid hupdate _ _ := by rwa [totalFee_of_isFeeUpdate hupdate] at hpaid
  reverted h := by cases h
  lost _ h := by cases h

theorem gasLeft_of_failed (hkeeps : KeepsGas evm.vm) (hgas : gas < 2 ^ 64) {frame : Frame}
    (hframe : frame.contract.gas + totalFee evm code value = gas) {error : RunError}
    (hrun : (frame.run evm).err = some error) :
    GasLeft evm code gas value
      (leftOverGas (frame.run evm).gas (totalFee evm code value) error) (some (.run error)) := by
  have hle : (frame.run evm).gas ≤ frame.contract.gas := run_gas_le hkeeps
  by_cases hreverted : error = .executionReverted
  · subst hreverted
    have hleft : leftOverGas (frame.run evm).gas (totalFee evm code value) .executionReverted =
        (frame.run evm).gas + totalFee evm code value := by
      unfold leftOverGas
      rw [if_pos rfl]
      exact Nat.mod_eq_of_lt (by omega)
    rw [hleft]
    exact {
      le := by omega
      paid := by simp
      reverted := fun _ ↦ ⟨frame, hrun, hframe, rfl⟩
      lost := fun _ herr _ hne ↦ absurd (Option.some.inj herr).symm hne }
  · unfold leftOverGas
    rw [if_neg hreverted]
    exact gasLeft_zero fun h ↦ hreverted (VMError.run.inj h)

theorem gasLeft_call (hkeeps : KeepsGas evm.vm) (hgas : gas < 2 ^ 64) :
    GasLeft evm (state.getCode address) gas value
      (call evm state caller address input gas value).gas
      (call evm state caller address input gas value).err := by
  have hexit : CallExit evm state gas (totalFee evm (state.getCode address) value) value
      (call evm state caller address input gas value) := call_exit
  generalize call evm state caller address input gas value = result at hexit
  cases hexit with
  | banned hbanned => exact ⟨le_rfl, by simp [hbanned.1], by simp, by simp⟩
  | guarded error hguard => exact gasLeft_of_guard hguard
  | absent hvalue => exact ⟨le_rfl, by simp [isFeeUpdate, hvalue], by simp, by simp⟩
  | unpaid => exact gasLeft_zero (by simp)
  | returned frame hframe hrun =>
    have hle : (frame.run evm).gas ≤ frame.contract.gas := run_gas_le hkeeps
    exact gasLeft_of_paid (by dsimp only; omega)
  | failed frame hframe error hrun => exact gasLeft_of_failed hkeeps hgas hframe hrun

theorem gasLeft_create (hkeeps : KeepsGas evm.vm) (hgas : gas < 2 ^ 64) :
    GasLeft evm code gas value (create evm state caller code gas value).gas
      (create evm state caller code gas value).err := by
  have hexit : CreateExit evm state caller code gas value
      (create evm state caller code gas value) := create_exit
  generalize create evm state caller code gas value = result at hexit
  cases hexit with
  | guarded error hguard => exact gasLeft_of_guard hguard
  | collision => exact gasLeft_zero (by simp)
  | unpaid => exact gasLeft_zero (by simp)
  | banned hbanned => exact ⟨le_rfl, by simp [hbanned.1], by simp, by simp⟩
  | ran frame hframe result hstore =>
    have hle : (frame.run evm).gas ≤ frame.contract.gas := run_gas_le hkeeps
    cases hstore with
    | failed error hrun => exact gasLeft_of_failed hkeeps hgas hframe hrun
    | lost error hlost => exact gasLeft_zero (by rcases hlost with rfl | rfl <;> simp)
    | stored hrun => exact gasLeft_of_paid (by dsimp only; omega)

end Gas

/-- No message returns more gas than it was given. One that succeeds has paid the proportional fee
if it applies, one that reverts gets it back once, and every other error after the fee takes all of
the gas. -/
theorem message_gasLeft {evm : EVM} (hkeeps : KeepsGas evm.vm) (state : StateDB)
    (caller address : Address) (input code : Bytes) {gas : ℕ} (hgas : gas < 2 ^ 64) (value : ℕ) :
    GasLeft evm (state.getCode address) gas value
        (call evm state caller address input gas value).gas
        (call evm state caller address input gas value).err ∧
      GasLeft evm code gas value (create evm state caller code gas value).gas
        (create evm state caller code gas value).err :=
  ⟨gasLeft_call hkeeps hgas, gasLeft_create hkeeps hgas⟩

/-- A creation with a fee of 500000 whose code is `STOP`. -/
theorem gasLeft_feeMachine :
    (create feeMachine (soleAccount 7 100) 7 [0] 600000 1).gas = 100000 ∧
      GasLeft feeMachine [0] 600000 1 (create feeMachine (soleAccount 7 100) 7 [0] 600000 1).gas
        (create feeMachine (soleAccount 7 100) 7 [0] 600000 1).err :=
  ⟨by rfl, (message_gasLeft (fun _ _ _ _ ↦ le_rfl) (soleAccount 7 100) 7 0 [] [0] (by decide) 1).2⟩

end LkChain.Ethereum.Failures
