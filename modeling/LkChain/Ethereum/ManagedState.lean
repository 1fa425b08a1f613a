import LkChain.Ethereum.State

/-!
# Managed state

`core/state/managed_state.go`: a copy of the state whose nonces and balances the transaction pool
moves ahead of the chain. The nonce of a managed account is tracked apart from its state object.
-/

namespace LkChain.Ethereum.State

/-- `account`: the nonces handed out from a first one on. -/
structure ManagedAccount where
  nstart : ℕ
  nonces : List Bool

structure ManagedState where
  stateDB : StateDB
  accounts : Address → Option ManagedAccount

/-- `newAccount`. -/
def StateObject.managed (object : StateObject) : ManagedAccount := ⟨object.nonce, []⟩

def manageState (statedb : StateDB) : ManagedState := ⟨statedb, fun _ ↦ none⟩

namespace ManagedState

variable (ms : ManagedState) (addr : Address)

/-- `getAccount`: a tracked nonce below that of the state object is tracked anew. -/
def getAccount : ManagedState × ManagedAccount :=
  match ms.accounts addr with
  | none =>
    let (statedb, object) := ms.stateDB.getOrNewStateObject addr
    (⟨statedb, Function.update ms.accounts addr (some object.managed)⟩, object.managed)
  | some account =>
    match ms.stateDB.objects addr with
    | none => (ms, account)
    | some object =>
      if account.nonces.length + account.nstart < object.nonce then
        ({ ms with accounts := Function.update ms.accounts addr (some object.managed) },
          object.managed)
      else (ms, account)

/-- `GetNonce`. What `getAccount` writes back is read as the same nonce again. -/
def getNonce : ℕ :=
  match ms.accounts addr with
  | none => ms.stateDB.getNonce addr
  | some _ => (ms.getAccount addr).2.nonces.length + (ms.getAccount addr).2.nstart

/-- `GetBalance` of the embedded state. -/
def getBalance : ℤ := ms.stateDB.getBalance addr

def setNonce (nonce : ℕ) : ManagedState where
  stateDB := ms.stateDB.setNonce addr nonce
  accounts := Function.update ms.accounts addr
    (some ((ms.stateDB.setNonce addr nonce).view addr).managed)

def setNonceAndBalance (nonce : ℕ) (amount : ℤ) : ManagedState :=
  let statedb := (ms.stateDB.setNonce addr nonce).setBalance addr amount
  ⟨statedb, Function.update ms.accounts addr (some (statedb.view addr).managed)⟩

variable {ms addr}

/-- The nonce of an account depends on its own entry and object only. -/
theorem getNonce_congr {other : ManagedState} (haccount : other.accounts addr = ms.accounts addr)
    (hobject : other.stateDB.objects addr = ms.stateDB.objects addr) :
    other.getNonce addr = ms.getNonce addr := by
  unfold getNonce getAccount
  rw [haccount, hobject]
  cases ms.accounts addr with
  | none => simp only [StateDB.getNonce, StateDB.view, hobject]
  | some account =>
    cases ms.stateDB.objects addr with
    | none => rfl
    | some object => dsimp only; split_ifs <;> rfl

theorem getNonce_of_managed {nonce : ℕ}
    (haccount : ms.accounts addr = some (ms.stateDB.view addr).managed)
    (hview : (ms.stateDB.view addr).nonce = nonce) : ms.getNonce addr = nonce := by
  unfold getNonce getAccount
  rw [haccount]
  cases hobject : ms.stateDB.objects addr with
  | none => simpa [StateObject.managed] using hview
  | some object =>
    have hself : ms.stateDB.view addr = object := by simp [StateDB.view, hobject]
    simpa [StateObject.managed, hself] using hview

end ManagedState

theorem StateDB.objects_setNonce_of_ne {state : StateDB} {addr observed : Address}
    (hne : observed ≠ addr) (nonce : ℕ) :
    (state.setNonce addr nonce).objects observed = state.objects observed := by
  unfold setNonce getOrNewStateObject
  cases state.objects addr <;> simp [setStateObject, createObject, install, hne]

theorem StateDB.objects_setBalance_of_ne {state : StateDB} {addr observed : Address}
    (hne : observed ≠ addr) (amount : ℤ) :
    (state.setBalance addr amount).objects observed = state.objects observed := by
  unfold setBalance getOrNewStateObject
  cases state.objects addr <;> simp [setStateObject, createObject, install, hne]

namespace ManagedState

variable (ms : ManagedState) (addr observed : Address)

@[simp]
theorem getNonce_setNonce (nonce : ℕ) :
    (ms.setNonce addr nonce).getNonce observed =
      if observed = addr then nonce else ms.getNonce observed := by
  split_ifs with hsame
  · subst hsame
    exact getNonce_of_managed (by simp [setNonce]) (by simp [setNonce])
  · exact getNonce_congr (by simp [setNonce, hsame])
      (StateDB.objects_setNonce_of_ne hsame nonce)

@[simp]
theorem getBalance_setNonce (nonce : ℕ) :
    (ms.setNonce addr nonce).getBalance observed = ms.getBalance observed :=
  congrFun (StateDB.getBalance_setNonce nonce) observed

@[simp]
theorem getNonce_setNonceAndBalance (nonce : ℕ) (amount : ℤ) :
    (ms.setNonceAndBalance addr nonce amount).getNonce observed =
      if observed = addr then nonce else ms.getNonce observed := by
  split_ifs with hsame
  · subst hsame
    exact getNonce_of_managed (by simp [setNonceAndBalance]) (by simp [setNonceAndBalance])
  · apply getNonce_congr
    · simp [setNonceAndBalance, hsame]
    · exact (StateDB.objects_setBalance_of_ne hsame amount).trans
        (StateDB.objects_setNonce_of_ne hsame nonce)

@[simp]
theorem getBalance_setNonceAndBalance (nonce : ℕ) (amount : ℤ) :
    (ms.setNonceAndBalance addr nonce amount).getBalance observed =
      if observed = addr then amount else ms.getBalance observed := by
  simp only [getBalance, setNonceAndBalance, StateDB.getBalance, StateDB.view_setBalance,
    StateDB.view_setNonce]
  split_ifs with hsame
  · subst hsame
    simp
  · simp [hsame]

end ManagedState

end LkChain.Ethereum.State
