import LkChain.Ethereum.Outcomes

/-!
# Nonces of external accounts

What a transaction does to nonces. The nonce of the sender is raised in two places, by
`TransitionDb` for calls and by `Create` for creations, and both come before the snapshot that a
failed execution goes back to. Everything after that leaves the standing of an account alone as long
as the account has no code and has used its nonce: it does not run, it cannot be created again
because its nonce makes the creation collide, and it is not empty when the state is finalised. For
the same reason it is not touched, so that what it reports to the dirty set is not taken back.
-/

namespace LkChain.Ethereum.Nonces

open State Transactions Calls Transition Outcomes

/-- What is assumed of the byte-code interpreter. A run changes the nonce, the code and the
self-destruct mark only of the contracts that it executes or creates, and an account without code
whose nonce has been used is neither. Such an account is not touched, and its balance changes are
reported. -/
structure LeavesExternal (vm : VM) : Prop where
  standing_eq : ∀ context state contract input observed, contract.code ≠ [] →
    observed ≠ contract.self → (state.standing observed).code = [] →
    (state.standing observed).nonce ≠ 0 →
      (vm.interpreter context state contract input).state.standing observed =
        state.standing observed
  steady : ∀ context state contract input observed, contract.code ≠ [] →
    observed ≠ contract.self → (state.standing observed).code = [] →
    (state.standing observed).nonce ≠ 0 →
      StateDB.Steady state (vm.interpreter context state contract input).state observed

/-- An account without code that has used its nonce. -/
structure External (standing : Standing) : Prop where
  code : standing.code = []
  nonce : standing.nonce ≠ 0

section Runs

variable {evm : EVM} {state : StateDB} {contract : Contract} {input : Bytes} {observed : Address}

theorem run_standing (hvm : LeavesExternal evm.vm) (hexternal : External (state.standing observed))
    (hself : contract.code ≠ [] → observed ≠ contract.self) :
    (run evm state contract input).state.standing observed = state.standing observed := by
  unfold run
  split
  · unfold runPrecompiledContract
    simp only
    split_ifs
    · rfl
    · split <;> rfl
  · unfold interpreterRun
    split_ifs with hcode
    · rfl
    · have hne : contract.code ≠ [] := by simpa using hcode
      exact hvm.standing_eq _ _ _ _ _ hne (hself hne) hexternal.code hexternal.nonce

theorem run_steady (hvm : LeavesExternal evm.vm) (hexternal : External (state.standing observed))
    (hself : contract.code ≠ [] → observed ≠ contract.self) :
    StateDB.Steady state (run evm state contract input).state observed := by
  unfold run
  split
  · unfold runPrecompiledContract
    simp only
    split_ifs
    · exact .refl _ _
    · split <;> exact .refl _ _
  · unfold interpreterRun
    split_ifs with hcode
    · exact .refl _ _
    · have hne : contract.code ≠ [] := by simpa using hcode
      exact hvm.steady _ _ _ _ _ hne (hself hne) hexternal.code hexternal.nonce

end Runs

section Calls

variable {evm : EVM} {state : StateDB} {caller address observed : Address} {input code : Bytes}
  {gas value : ℕ}

theorem callContract_standing (hvm : LeavesExternal evm.vm)
    (hexternal : External (state.standing observed)) :
    (callContract evm state state caller address input gas value).state.standing observed =
      state.standing observed := by
  have hstart : (callFrame evm state caller address input gas value).state.standing =
      state.standing := standing_transfer _ _ _ _
  have hend := callContract_end evm state state caller address input gas value
  generalize callContract evm state state caller address input gas value = ended at hend
  cases hend with
  | unpaid => rfl
  | returned result hfee hresult =>
    subst hresult
    refine (run_standing hvm (by rwa [hstart]) fun hcode hsame ↦ hcode ?_).trans
      (congrFun hstart observed)
    subst hsame
    exact hexternal.code
  | failed => rfl

theorem createContract_standing (hvm : LeavesExternal evm.vm) (hdepth : evm.depth = 0)
    (hexternal : External (state.standing observed)) :
    (createContract evm state caller address code gas value).state.standing observed =
      state.standing observed := by
  have hother : state.getNonce address = 0 → observed ≠ address := by
    rintro hfree rfl
    exact hexternal.nonce hfree
  have hstart : observed ≠ address →
      (createFrame evm state caller address code gas value).state.standing observed =
        state.standing observed := fun hne ↦
    (congrFun (standing_transfer _ _ _ _) observed).trans (standing_createdAccount_of_ne hne)
  have hend := createContract_end evm state caller address code gas value hdepth
  generalize createContract evm state caller address code gas value = ended at hend
  cases hend with
  | collision => rfl
  | unpaid hfree => exact standing_createdAccount_of_ne (hother hfree)
  | failed => rfl
  | stored result hfree hfee hresult =>
    subst hresult
    have hne := hother hfree
    refine (StateDB.standing_of_update (StateDB.view_setCode _) hne).trans ?_
    exact (run_standing hvm (by rwa [hstart hne]) fun _ ↦ hne).trans (hstart hne)

theorem steady_transfer (hnonce : (state.standing observed).nonce ≠ 0) :
    StateDB.Steady state (transfer state caller address value) observed :=
  (StateDB.steady_subBalance hnonce _).trans (StateDB.steady_addBalance (by simpa using hnonce) _)

theorem callContract_steady (hvm : LeavesExternal evm.vm)
    (hexternal : External (state.standing observed)) :
    StateDB.Steady state
      (callContract evm state state caller address input gas value).state observed := by
  have hrun : StateDB.Steady state
      ((callFrame evm state caller address input gas value).run evm).state observed := by
    refine (steady_transfer hexternal.nonce).trans
      (run_steady hvm (by rwa [standing_transfer]) fun hcode hsame ↦ hcode ?_)
    subst hsame
    exact hexternal.code
  have hend := callContract_end evm state state caller address input gas value
  generalize callContract evm state state caller address input gas value = ended at hend
  cases hend with
  | unpaid => exact .refl _ _
  | returned result hfee hresult =>
    subst hresult
    exact hrun
  | failed result hfee hresult =>
    subst hresult
    exact hrun.revertToSnapshot (StateDB.exist_of_nonce hexternal.nonce)

theorem steady_createdAccount (hnonce : (state.standing observed).nonce ≠ 0)
    (hne : observed ≠ address) : StateDB.Steady state (createdAccount state address) observed := by
  have hcreated : StateDB.Steady state (state.createAccount address) observed :=
    StateDB.steady_install_of_ne hne _ _
  refine hcreated.trans (StateDB.steady_setNonce ?_ 1)
  rwa [StateDB.standing_of_update StateDB.view_createAccount hne]

theorem createContract_steady (hvm : LeavesExternal evm.vm) (hdepth : evm.depth = 0)
    (hexternal : External (state.standing observed)) :
    StateDB.Steady state
      (createContract evm state caller address code gas value).state observed := by
  by_cases hsame : observed = address
  · -- the used nonce makes the creation collide
    subst hsame
    have hused : state.getNonce observed ≠ 0 := hexternal.nonce
    simp only [createContract, hused, ne_eq, not_false_eq_true, true_or, if_true]
    exact .refl _ _
  · have hcreated := steady_createdAccount hexternal.nonce hsame
    have hstanding : (createdAccount state address).standing observed = state.standing observed :=
      standing_createdAccount_of_ne hsame
    have hstart : StateDB.Steady state
        (createFrame evm state caller address code gas value).state observed :=
      hcreated.trans (steady_transfer (by rw [hstanding]; exact hexternal.nonce))
    have hframe : (createFrame evm state caller address code gas value).state.standing observed =
        state.standing observed := (congrFun (standing_transfer _ _ _ _) observed).trans hstanding
    have hrun : StateDB.Steady state
        ((createFrame evm state caller address code gas value).run evm).state observed :=
      hstart.trans (run_steady hvm (by rwa [hframe]) fun _ ↦ hsame)
    have hend := createContract_end evm state caller address code gas value hdepth
    generalize createContract evm state caller address code gas value = ended at hend
    cases hend with
    | collision => exact .refl _ _
    | unpaid => exact hcreated
    | failed result hfee hresult =>
      subst hresult
      exact hrun.revertToSnapshot (StateDB.exist_of_nonce hexternal.nonce)
    | stored result hfree hfee hresult =>
      subst hresult
      have hran : ((createFrame evm state caller address code gas value).run evm).state.standing
          observed = state.standing observed :=
        (run_standing hvm (by rwa [hframe]) fun _ ↦ hsame).trans hframe
      exact hrun.trans (StateDB.steady_setCode (by rw [hran]; exact hexternal.nonce) _)

end Calls

/-! ## Transactions -/

section Transactions

variable {env : Environment} {state : StateDB} {header : Header} {msg : Message}
  {observed : Address}

theorem execute_standing {evm : EVM} {gas : ℕ} (hvm : LeavesExternal evm.vm)
    (hdepth : evm.depth = 0) (hcan : (msg.value : ℤ) ≤ state.getBalance msg.sender)
    (hexternal : External ((bumpNonce state msg.sender).standing observed)) :
    (execute evm state msg gas).state.standing observed =
      (bumpNonce state msg.sender).standing observed := by
  cases hrecipient : msg.recipient with
  | none =>
    rw [execute_of_none hdepth hcan hrecipient]
    exact createContract_standing hvm hdepth hexternal
  | some recipient =>
    rw [execute_of_some hdepth hcan hrecipient]
    have hensured : (ensureAccount (bumpNonce state msg.sender) recipient).standing observed =
        (bumpNonce state msg.sender).standing observed := by simp
    rw [← hensured] at hexternal ⊢
    exact callContract_standing hvm hexternal

theorem execute_steady {evm : EVM} {gas : ℕ} (hvm : LeavesExternal evm.vm)
    (hdepth : evm.depth = 0) (hcan : (msg.value : ℤ) ≤ state.getBalance msg.sender)
    (hexternal : External ((bumpNonce state msg.sender).standing observed)) :
    StateDB.Steady (bumpNonce state msg.sender) (execute evm state msg gas).state observed := by
  cases hrecipient : msg.recipient with
  | none =>
    rw [execute_of_none hdepth hcan hrecipient]
    exact createContract_steady hvm hdepth hexternal
  | some recipient =>
    rw [execute_of_some hdepth hcan hrecipient]
    exact (steady_ensureAccount hexternal.nonce _).trans
      (callContract_steady hvm (by rwa [standing_ensureAccount]))

theorem standing_bumpNonce_congr {other : StateDB} (hstanding : other.standing = state.standing)
    (address : Address) :
    (bumpNonce other address).standing = (bumpNonce state address).standing := by
  funext observed
  by_cases hsame : observed = address
  · subst hsame
    have hnonce : other.getNonce observed = state.getNonce observed :=
      congrArg Standing.nonce (congrFun hstanding observed)
    rw [standing_bumpNonce_self, standing_bumpNonce_self, hstanding, hnonce]
  · rw [standing_bumpNonce_of_ne hsame, standing_bumpNonce_of_ne hsame, hstanding]

/-- An executed transaction bumps the nonce of its sender and otherwise leaves external accounts
as they are. -/
theorem recordReceipt_standing (hvm : LeavesExternal env.vm) (hcovers : Covers env state header msg)
    (hmark : (state.standing observed).suicided = false)
    (hexternal : External ((bumpNonce state msg.sender).standing observed)) (tx : Transaction)
    (usedGas gas : ℤ) :
    (recordReceipt env header tx msg usedGas gas
        (settled (env.evm header msg) env.config state msg)).state.standing observed =
      (bumpNonce state msg.sender).standing observed ∧
    StateDB.Steady (bumpNonce (bought state msg) msg.sender)
      (recordReceipt env header tx msg usedGas gas
        (settled (env.evm header msg) env.config state msg)).state observed := by
  have hbumped := standing_bumpNonce_congr (standing_bought state msg) msg.sender
  have hexternal' : External ((bumpNonce (bought state msg) msg.sender).standing observed) := by
    rwa [hbumped]
  have hexecuted : (executed (env.evm header msg) env.config state msg).state.standing observed =
      (bumpNonce state msg.sender).standing observed := by
    rw [← hbumped]
    exact execute_standing hvm rfl hcovers.value_le hexternal'
  have hsteady : StateDB.Steady (bumpNonce (bought state msg) msg.sender)
      (executed (env.evm header msg) env.config state msg).state observed :=
    execute_steady hvm rfl hcovers.value_le hexternal'
  have hnonce : ((executed (env.evm header msg) env.config state msg).state.standing
      observed).nonce ≠ 0 := by
    rw [hexecuted]
    exact hexternal.nonce
  have hsettled : (settled (env.evm header msg) env.config state msg).state.standing observed =
      (bumpNonce state msg.sender).standing observed := by
    simp only [settled, settle, StateDB.standing_addBalance]
    exact hexecuted
  have hpaid : StateDB.Steady (executed (env.evm header msg) env.config state msg).state
      (settled (env.evm header msg) env.config state msg).state observed :=
    (StateDB.steady_addBalance hnonce _).trans
      (StateDB.steady_addBalance (by rwa [StateDB.standing_addBalance]) _)
  have hkept : ((settled (env.evm header msg) env.config state msg).state.standing
      observed).suicided = false := by
    rw [hsettled, (code_bumpNonce state msg.sender observed).2, hmark]
  have hused : ((settled (env.evm header msg) env.config state msg).state.standing
      observed).nonce ≠ 0 := by
    rw [hsettled]
    exact hexternal.nonce
  obtain ⟨deleteEmptyObjects, hfinal⟩ := finaliseTx_fst env header.number
    (settled (env.evm header msg) env.config state msg).state
  unfold recordReceipt
  simp only [hfinal]
  refine ⟨?_, (hsteady.trans hpaid).trans (StateDB.steady_finalise hused hkept _)⟩
  rw [StateDB.standing_finalise hused hkept, hsettled]

end Transactions

end LkChain.Ethereum.Nonces
