import LkChain.Ethermint.Pending

/-!
# Admission to the mempool

`validateEthTx` of `app/app.go` decides which transactions enter the mempool. It repeats the tests
of the execution against a copy of the state: the signature, the nonce, the balance and the gas.
The two are written independently. Admission takes the signer from the transaction itself, execution
from the chain configuration and the block number; admission reads the gas limit as a big integer or
through its low 64 bits, execution refuses gas limits beyond 64 bits.
-/

namespace LkChain.Ethermint.Admission

open Ethereum State Transactions Calls Transition Outcomes Pending

/-- The answer to `CheckTx` and `DeliverTx`. -/
structure Response where
  code : ℕ
  log : String
deriving DecidableEq

/-- What the check reads besides its own state: the transactions on chain, the time of the current
block, the encoded size of a transaction and the text of a hash. -/
structure Backend where
  isEtxExist : Hash → Bool
  currentBlockTime : ℕ
  size : Transaction → ℕ
  hashString : Hash → String

/-- The state of the check, reset at every commit, and the next nonces that it has handed out. A
missing entry of the nonce map reads as zero. -/
structure CheckState where
  checkTxState : StateDB
  nonceMap : Address → ℕ

def maxTransactionSize : ℕ := 32768

/-- `isContract`: a payload that is not a JSON object. -/
def isContract (vm : VM) (data : Bytes) : Bool := 0 < data.length && !vm.isJSONObject data

/-- `IllegalGasLimitOrGasPrice`. The new rule compares the low 64 bits of the gas limit. -/
def illegalGasLimitOrGasPrice (vm : VM) (tx : Transaction) (hashcode newFunc : Bool) : Bool :=
  if tx.price ≠ 100000000000 then true
  else
    let iscontract := isContract vm tx.payload
    if newFunc then
      let gasFee := calNewFee tx.amount
      if 0 < tx.amount ∧ tx.gasLimit % 2 ^ 64 < gasFee then true
      else if iscontract && tx.recipient.isNone then false
      else !hashcode && gasFee != tx.gasLimit % 2 ^ 64
    else if !iscontract && tx.gasLimit != 100000 then true
    else if iscontract && tx.recipient.isNone then false
    else iscontract && !hashcode && tx.gasLimit < 100000

/-- Whether the gas limit and price of a transaction are refused in the current state. -/
def gasFail (env : Environment) (backend : Backend) (state : StateDB) (tx : Transaction) : Bool :=
  let hashcode := match tx.recipient with
    | none => false
    | some recipient => 0 < state.getCodeSize recipient
  let feeUpdateTime := env.vmConfig.feeUpdateTime
  illegalGasLimitOrGasPrice env.vm tx hashcode
    (feeUpdateTime ≠ 0 && feeUpdateTime ≤ backend.currentBlockTime)

/-- The state of the check after a transaction has been admitted. -/
def CheckState.accept (app : CheckState) (sender : Address) (tx : Transaction) : CheckState :=
  let debited := app.checkTxState.subBalance sender tx.cost
  let credited := match tx.recipient with
    | none => debited
    | some recipient => debited.addBalance recipient tx.amount
  let next := (tx.accountNonce + 1) % 2 ^ 64
  ⟨credited.setNonce sender next, Function.update app.nonceMap sender next⟩

/-- The second half of `validateEthTx`, from the recovered sender on. -/
def validateFrom (env : Environment) (backend : Backend) (app : CheckState) (tx : Transaction)
    (sender : Address) : CheckState × Response :=
  let state := app.checkTxState
  let nonce := max (state.getNonce sender) (app.nonceMap sender)
  let mismatch := "Nonce is not strictly increasing. Expected: " ++ toString nonce ++
    "; Got: " ++ toString tx.accountNonce
  if gasFail env backend state tx then (app, ⟨1, "illegal gasLimit or gasPrice"⟩)
  else if maxTransactionSize < backend.size tx then (app, ⟨1, "oversized data"⟩)
  else if (tx.amount : ℤ) < 0 then (app, ⟨1, "negative value"⟩)
  else if !state.exist sender then (app, ⟨1, "invalid sender"⟩)
  else if tx.accountNonce < nonce then (app, ⟨1, mismatch⟩)
  else if nonce < tx.accountNonce then (app, ⟨9999, mismatch⟩)
  else if state.getBalance sender < tx.cost then
    (app, ⟨1, "Current balance: " ++ toString (state.getBalance sender) ++ ", tx cost: " ++
      toString tx.cost⟩)
  else if tx.gasLimit < intrinsicGas tx.payload tx.recipient.isNone true then
    (app, ⟨1, "intrinsic gas too low"⟩)
  else (app.accept sender tx, ⟨0, ""⟩)

def validateEthTx (env : Environment) (backend : Backend) (app : CheckState)
    (tx : Option Transaction) : CheckState × Response :=
  match tx with
  | none => (app, ⟨1, "empty tx"⟩)
  | some tx =>
    let hash := env.recovery.txHash tx
    if backend.isEtxExist hash then
      (app, ⟨1, "known transaction, hash=" ++ backend.hashString hash⟩)
    else
      match (ownSigner tx).sender env.recovery tx with
      | .error _ => (app, ⟨1, "invalid sender"⟩)
      | .ok sender => validateFrom env backend app tx sender

/-! ## What admission establishes -/

/-- The tests that an admitted transaction has passed. -/
structure Admitted (env : Environment) (backend : Backend) (app : CheckState) (tx : Transaction)
    (sender : Address) : Prop where
  sender_ok : (ownSigner tx).sender env.recovery tx = .ok sender
  gas_legal : gasFail env backend app.checkTxState tx = false
  exists_sender : app.checkTxState.exist sender = true
  nonce_eq : max (app.checkTxState.getNonce sender) (app.nonceMap sender) = tx.accountNonce
  cost_le : (tx.cost : ℤ) ≤ app.checkTxState.getBalance sender
  intrinsic_le : intrinsicGas tx.payload tx.recipient.isNone true ≤ tx.gasLimit

variable {env : Environment} {backend : Backend} {app : CheckState} {tx : Transaction}

theorem passed_of_code_zero {condition : Prop} [Decidable condition] {code : ℕ} {log : String}
    {rest : CheckState × Response} (hrefuses : code ≠ 0)
    (hcode : (if condition then (app, ⟨code, log⟩) else rest).2.code = 0) :
    ¬ condition ∧ rest.2.code = 0 := by
  by_cases hcondition : condition
  · rw [if_pos hcondition] at hcode
    exact absurd hcode hrefuses
  · rw [if_neg hcondition] at hcode
    exact ⟨hcondition, hcode⟩

theorem admitted_of_validateFrom {sender : Address}
    (hsender : (ownSigner tx).sender env.recovery tx = .ok sender)
    (hcode : (validateFrom env backend app tx sender).2.code = 0) :
    Admitted env backend app tx sender := by
  unfold validateFrom at hcode
  obtain ⟨hgas, hcode⟩ := passed_of_code_zero Nat.one_ne_zero hcode
  obtain ⟨-, hcode⟩ := passed_of_code_zero Nat.one_ne_zero hcode
  obtain ⟨-, hcode⟩ := passed_of_code_zero Nat.one_ne_zero hcode
  obtain ⟨hexist, hcode⟩ := passed_of_code_zero Nat.one_ne_zero hcode
  obtain ⟨hlow, hcode⟩ := passed_of_code_zero Nat.one_ne_zero hcode
  obtain ⟨hhigh, hcode⟩ := passed_of_code_zero (by decide) hcode
  obtain ⟨hcost, hcode⟩ := passed_of_code_zero Nat.one_ne_zero hcode
  obtain ⟨hintrinsic, -⟩ := passed_of_code_zero Nat.one_ne_zero hcode
  have hnonce : max (app.checkTxState.getNonce sender) (app.nonceMap sender) =
      tx.accountNonce := le_antisymm (not_lt.mp hlow) (not_lt.mp hhigh)
  exact ⟨hsender, by simpa using hgas, by simpa using hexist, hnonce, not_lt.mp hcost,
    not_lt.mp hintrinsic⟩

theorem admitted_of_code_zero (hcode : (validateEthTx env backend app (some tx)).2.code = 0) :
    ∃ sender, Admitted env backend app tx sender := by
  unfold validateEthTx at hcode
  simp only at hcode
  split_ifs at hcode with hknown
  split at hcode
  · cases hcode
  · exact ⟨_, admitted_of_validateFrom ‹_› hcode⟩

/-! ## Which signatures survive until execution -/

/-- An admitted signature is also the signature of a sender under the rules of the block. A
protected transaction must name the chain, and replay protection must be active; an unprotected one
needs a low S value once Homestead is active. -/
def SignerAccepts (config : ChainConfig) (number : ℕ) (tx : Transaction) : Prop :=
  if tx.isProtected then config.isEIP155 number = true ∧ tx.chainId = config.chainId.getD 0
  else config.isEIP155 number = true ∨ config.isHomestead number = true → tx.s ≤ secp256k1HalfN

theorem homesteadRules_makeSigner (config : ChainConfig) (number : ℕ) :
    (makeSigner config number).homesteadRules = true ↔
      config.isEIP155 number = true ∨ config.isHomestead number = true := by
  unfold makeSigner
  split_ifs with heip155 hhomestead <;> simp [Signer.homesteadRules, *]

theorem validateSignatureValues_homestead {v r s : ℕ}
    (hvalid : validateSignatureValues v r s false = true) (homestead : Bool) :
    validateSignatureValues v r s homestead = true ↔ (homestead = true → s ≤ secp256k1HalfN) := by
  unfold validateSignatureValues at hvalid ⊢
  split_ifs at hvalid with hzero
  rw [if_neg hzero]
  cases homestead with
  | false => simp [hvalid]
  | true =>
    rcases lt_or_ge secp256k1HalfN s with hhigh | hlow
    · simp [hhigh]
    · simp [not_lt.mpr hlow, hlow, hvalid]

/-- Which admitted transactions have a sender under the rules of the block. -/
theorem exists_sender_iff {sender : Address} (config : ChainConfig) (number : ℕ)
    (hown : (ownSigner tx).sender env.recovery tx = .ok sender) :
    (∃ other, (makeSigner config number).sender env.recovery tx = .ok other) ↔
      SignerAccepts config number tx := by
  unfold SignerAccepts
  cases hprotected : tx.isProtected with
  | false =>
    have hfrontier : ownSigner tx = .frontier := by simp [ownSigner, hprotected]
    rw [hfrontier, sender_of_not_isProtected _ hprotected, recoverPlain_ok_iff] at hown
    obtain ⟨hsmall, hvalid, hrecovered⟩ := hown
    simp only [sender_of_not_isProtected _ hprotected, recoverPlain_ok_iff, Bool.false_eq_true,
      if_false, ← homesteadRules_makeSigner]
    rw [← validateSignatureValues_homestead hvalid]
    exact ⟨fun ⟨_, _, hok, _⟩ ↦ hok, fun hok ↦ ⟨sender, hsmall, hok, hrecovered⟩⟩
  | true =>
    have heip155 : ownSigner tx = .eip155 tx.chainId := by simp [ownSigner, hprotected]
    rw [heip155] at hown
    simp only [if_true]
    constructor
    · rintro ⟨other, hother⟩
      have hsigner := sender_of_isProtected hprotected hother
      unfold makeSigner at hsigner
      split_ifs at hsigner with hactive
      exact ⟨hactive, (Signer.eip155.inj hsigner).symm⟩
    · rintro ⟨hactive, hchain⟩
      refine ⟨sender, ?_⟩
      simp only [makeSigner, hactive, if_true, ← hchain]
      exact hown

/-! ## From admission to execution -/

/-- The check at the start of a block: nothing has been admitted yet. -/
def freshCheck (state : StateDB) : CheckState := ⟨state, fun _ ↦ 0⟩

variable {w : Work} {msg : Message}

theorem exists_carries_iff {sender : Address} (header : Header)
    (hown : (ownSigner tx).sender env.recovery tx = .ok sender) :
    (∃ msg, Carries env header tx msg) ↔ SignerAccepts env.config header.number tx := by
  rw [← exists_sender_iff env.config header.number hown]
  constructor
  · rintro ⟨msg, hmsg⟩
    exact ⟨msg.sender, hmsg.sender_eq⟩
  · rintro ⟨other, hother⟩
    exact ⟨_, by simp only [Carries, asMessage, hother]; rfl⟩

/-- The nonce, balance and intrinsic-gas tests of the execution follow from those of the admission;
the bound on the gas limit does not. -/
theorem covers_iff_of_admitted {sender : Address}
    (hadmitted : Admitted env backend (freshCheck w.state) tx sender)
    (hmsg : Carries env w.header tx msg) :
    Covers env w.state w.header msg ↔ tx.gasLimit < 2 ^ 64 := by
  have hsender : msg.sender = sender := sender_unique hmsg.sender_eq hadmitted.sender_ok
  have hnonce : w.state.getNonce sender = tx.accountNonce := by
    simpa [freshCheck] using hadmitted.nonce_eq
  have hcost : ((tx.gasLimit * tx.price : ℕ) : ℤ) + tx.amount ≤ w.state.getBalance sender := by
    have hcost := hadmitted.cost_le
    rw [Transaction.cost, Nat.mul_comm] at hcost
    simpa [freshCheck] using hcost
  have hintrinsic : messageGas (env.evm w.header msg) env.config msg ≤ tx.gasLimit := by
    have hrules := intrinsicGas_le_homestead tx.payload tx.recipient.isNone
      (env.config.isHomestead w.header.number)
    rw [hmsg.eq]
    exact hrules.trans hadmitted.intrinsic_le
  rw [hmsg.eq] at hintrinsic ⊢
  rw [hsender] at hintrinsic ⊢
  refine ⟨fun hcovers ↦ hcovers.paysGas.gas_lt, fun hgas ↦ ⟨⟨hnonce, hgas, ?_⟩, hintrinsic, hcost⟩⟩
  simp only
  omega

/-- For every configuration, block, state and transaction: that an admitted transaction is delivered
without an error amounts to a condition on the transaction that admission does not test. Its gas
limit must fit 64 bits, the signer of the block must accept its signature, and the gas record must
be written. Whenever both paths recover a sender they recover the same one. -/
theorem admission_implies_delivery_iff (env : Environment) (backend : Backend) (w : Work)
    (tx : Transaction) (written : Bool) :
    (((validateEthTx env backend (freshCheck w.state) (some tx)).2.code = 0 →
        ∃ after, deliverTx env written w tx = .ok (after, none)) ↔
      ((validateEthTx env backend (freshCheck w.state) (some tx)).2.code = 0 →
        written = true ∧ tx.gasLimit < 2 ^ 64 ∧
          SignerAccepts env.config w.header.number tx)) ∧
    (∀ sender other, (ownSigner tx).sender env.recovery tx = .ok sender →
      (makeSigner env.config w.header.number).sender env.recovery tx = .ok other →
        sender = other) := by
  refine ⟨?_, fun sender other hsender hother ↦ sender_unique hsender hother⟩
  refine imp_congr_right fun hcode ↦ ?_
  obtain ⟨sender, hadmitted⟩ := admitted_of_code_zero hcode
  rw [deliverTx_nil_iff, ← exists_carries_iff w.header hadmitted.sender_ok]
  refine and_congr_right fun _ ↦ ⟨?_, ?_⟩
  · rintro ⟨msg, hmsg, hcovers⟩
    exact ⟨(covers_iff_of_admitted hadmitted hmsg).mp hcovers, msg, hmsg⟩
  · rintro ⟨hgas, msg, hmsg⟩
    exact ⟨msg, hmsg, (covers_iff_of_admitted hadmitted hmsg).mpr hgas⟩

/-- A backend that knows no transaction. -/
def sampleBackend : Backend := ⟨fun _ ↦ false, 0, fun _ ↦ 0, fun _ ↦ ""⟩

/-- A transfer that is signed for chain 5. -/
def foreignTransfer : Transaction := ⟨0, 100000000000, 100000, some 8, 1, [], 45, 1, 1⟩

/-- On chain 1 a transfer signed for chain 5 is admitted, and its delivery fails. -/
theorem foreignTransfer_admitted_not_delivered :
    (validateEthTx (sampleEnvironment 7 stopInterpreter) sampleBackend
      (freshCheck (soleAccount 7 100000000000000000)) (some foreignTransfer)).2.code = 0 ∧
    ∃ after, deliverTx (sampleEnvironment 7 stopInterpreter) true
      (emptyWork (sampleHeader 9) (soleAccount 7 100000000000000000)) foreignTransfer =
        .ok (after, some (.transaction (.sender .invalidChainId))) :=
  ⟨by decide, _, rfl⟩

end LkChain.Ethermint.Admission
