import LkChain.Ethermint.Application

/-!
# Which bytes the application survives

`CheckTx` and `DeliverTx` answer every envelope except three kinds. A hollow `et` document announces
a transaction and does not contain it; signed or not, one of the two exits of the signature check
hashes the missing transaction. A validator transaction may carry a signature under a key that wraps
nil. A transaction that overdraws its sender panics in the delivery only, where no balance has been
checked.
-/

namespace LkChain.Ethermint.Totality

open Ethereum State Transactions Calls Transition Outcomes Admission Application Foundation.Results
open Validators.ParseTx (Unverifiable parsePanics_iff)

variable {PubKey Signature NodeAddress : Type} {setup : Setup PubKey Signature NodeAddress}

/-! ## The documents of `lk` envelopes -/

section Documents

variable {lkx : LKTransaction} {tx : Transaction} {etx : Option EthTransaction}

/-- Whether the signature of an `et` document with its transaction is accepted. -/
def signAccepted (setup : Setup PubKey Signature NodeAddress) (lkx : LKTransaction) : Bool :=
  lkx.sign.isEmpty || (checkTxSign setup lkx "").isNone

theorem ethHash_of_none (hnone : etx.bind EthTransaction.tx = none) :
    ethHash setup etx = .error .nilDereference := by
  cases etx with
  | none => rfl
  | some content =>
    have htx : content.tx = none := hnone
    simp only [ethHash, htx]

theorem ethHash_of_some (hsome : etx.bind EthTransaction.tx = some tx) :
    ethHash setup etx = .ok (setup.env.recovery.txHash tx) := by
  cases etx with
  | none => cases hsome
  | some content =>
    have htx : content.tx = some tx := hsome
    simp only [ethHash, htx]

theorem lkHash_eq (htype : lkx.type = ethTxType) : lkHash setup lkx = ethHash setup lkx.etx :=
  if_pos htype

theorem isLKTxSignValid_of_none (htype : lkx.type = ethTxType)
    (hnone : lkx.etx.bind EthTransaction.tx = none) :
    isLKTxSignValid setup lkx = .ok lkx.sign.isEmpty := by
  unfold isLKTxSignValid
  rw [if_pos htype, hnone]
  cases hsign : lkx.sign.isEmpty <;> rfl

theorem isLKTxSignValid_of_some (htype : lkx.type = ethTxType)
    (hsome : lkx.etx.bind EthTransaction.tx = some tx) :
    isLKTxSignValid setup lkx = .ok (signAccepted setup lkx) := by
  unfold isLKTxSignValid signAccepted
  rw [if_pos htype, hsome, lkHash_eq htype, ethHash_of_some hsome]
  cases hsign : lkx.sign.isEmpty <;> rfl

theorem returns_checkLKTransaction_iff (check : CheckState) (htype : lkx.type = ethTxType) :
    Returns (checkLKTransaction setup check lkx) ↔ lkx.etx.bind EthTransaction.tx ≠ none := by
  unfold checkLKTransaction checkEthTransaction
  rw [lkHash_eq htype]
  cases hcontent : lkx.etx.bind EthTransaction.tx with
  | none =>
    -- An unsigned document is hashed for the history check, a signed one for the answer.
    rw [isLKTxSignValid_of_none htype hcontent, ethHash_of_none hcontent]
    cases hsign : lkx.sign.isEmpty <;> simp [returns_bind_iff, htype]
  | some tx =>
    rw [isLKTxSignValid_of_some htype hcontent, ethHash_of_some hcontent]
    cases hvalid : signAccepted setup lkx <;> simp [returns_bind_iff, htype]

/-- A document without its transaction panics in front of the delivery, with it in the delivery. -/
theorem returns_deliverEthTransaction_iff (written : Bool) (work : Pending.Work)
    (htype : lkx.type = ethTxType) :
    Returns (deliverEthTransaction setup written work lkx) ↔
      ∃ tx, lkx.etx.bind EthTransaction.tx = some tx ∧
        ¬ Overdrawn setup.env work.state work.header tx := by
  unfold deliverEthTransaction
  cases hetx : lkx.etx with
  | none => simp
  | some etx =>
    dsimp only [Option.bind_some]
    rw [lkHash_eq htype]
    cases hcontent : etx.tx with
    | none => simp [backendDeliverTx, returns_bind_iff]
    | some tx =>
      have hhash : ethHash setup lkx.etx = .ok (setup.env.recovery.txHash tx) := by
        apply ethHash_of_some
        rw [hetx]
        exact hcontent
      rw [hhash]
      change Returns (backendDeliverTx setup written work (some tx) >>= fun delivered ↦
        pure delivered) ↔ _
      rw [returns_bind_pure_iff, backendDeliverTx, Pending.returns_deliverTx_iff]
      simp

theorem returns_handleLKTransaction_of_valid (written : Bool) (work : Pending.Work)
    (htype : lkx.type = ethTxType) (hvalid : isLKTxSignValid setup lkx = .ok true) :
    Returns (handleLKTransaction setup written work lkx) ↔
      Returns (deliverEthTransaction setup written work lkx) := by
  unfold handleLKTransaction
  rw [hvalid, returns_bind_iff]
  simp only [Except.ok.injEq, exists_eq_left', if_true, htype, returns_bind_pure_iff]

theorem returns_handleLKTransaction_of_invalid (written : Bool) (work : Pending.Work)
    (hinvalid : isLKTxSignValid setup lkx = .ok false) :
    Returns (handleLKTransaction setup written work lkx) ↔ Returns (lkHash setup lkx) := by
  unfold handleLKTransaction
  rw [hinvalid, returns_bind_iff]
  simp only [Except.ok.injEq, exists_eq_left', Bool.false_eq_true, if_false, returns_bind_pure_iff]

/-- The delivery of an `et` document returns exactly when the transaction is there and, if the
signature is accepted, does not overdraw its sender. -/
theorem returns_handleLKTransaction_iff (written : Bool) (work : Pending.Work)
    (htype : lkx.type = ethTxType) :
    Returns (handleLKTransaction setup written work lkx) ↔
      lkx.etx.bind EthTransaction.tx ≠ none ∧
        ∀ tx, lkx.etx.bind EthTransaction.tx = some tx → signAccepted setup lkx = true →
          ¬ Overdrawn setup.env work.state work.header tx := by
  cases hcontent : lkx.etx.bind EthTransaction.tx with
  | none =>
    have hsign : isLKTxSignValid setup lkx = .ok lkx.sign.isEmpty :=
      isLKTxSignValid_of_none htype hcontent
    cases hempty : lkx.sign.isEmpty with
    | true =>
      rw [hempty] at hsign
      rw [returns_handleLKTransaction_of_valid written work htype hsign,
        returns_deliverEthTransaction_iff written work htype, hcontent]
      simp
    | false =>
      rw [hempty] at hsign
      rw [returns_handleLKTransaction_of_invalid written work hsign, lkHash_eq htype,
        ethHash_of_none hcontent]
      simp
  | some tx =>
    have hsign : isLKTxSignValid setup lkx = .ok (signAccepted setup lkx) :=
      isLKTxSignValid_of_some htype hcontent
    cases haccepted : signAccepted setup lkx with
    | true =>
      rw [haccepted] at hsign
      rw [returns_handleLKTransaction_of_valid written work htype hsign,
        returns_deliverEthTransaction_iff written work htype, hcontent]
      simp
    | false =>
      rw [haccepted] at hsign
      rw [returns_handleLKTransaction_of_invalid written work hsign, lkHash_eq htype,
        ethHash_of_some hcontent]
      simp

end Documents

/-! ## Envelopes -/

/-- An `et` document in the envelope contains its transaction. -/
def Filled (setup : Setup PubKey Signature NodeAddress) (etherTx : EtherTx) : Prop :=
  etherTx.type = lkTxType → ∀ lkx, setup.services.decodeLK etherTx.tx = .ok lkx →
    lkx.type = ethTxType → lkx.etx.bind EthTransaction.tx ≠ none

/-- No signature of a validator transaction in the envelope is checked with a key that wraps nil. -/
def Verifiable (setup : Setup PubKey Signature NodeAddress) (app : EthermintApplication)
    (etherTx : EtherTx) : Prop :=
  etherTx.type = "val" →
    ¬ Unverifiable setup.codec setup.crypto etherTx.tx app.strategy.keyMap

/-- The transaction that an envelope hands to the block under construction. -/
def Hands (setup : Setup PubKey Signature NodeAddress) (etherTx : EtherTx) (tx : Transaction) :
    Prop :=
  etherTx.type = "tx" ∧ decodeTxString setup etherTx.tx = .ok tx ∨
    etherTx.type = lkTxType ∧ ∃ lkx, setup.services.decodeLK etherTx.tx = .ok lkx ∧
      lkx.type = ethTxType ∧ lkx.etx.bind EthTransaction.tx = some tx ∧
      signAccepted setup lkx = true

/-- A transaction handed to the block does not overdraw its sender. -/
def Covered (setup : Setup PubKey Signature NodeAddress) (app : EthermintApplication)
    (etherTx : EtherTx) : Prop :=
  ∀ tx, Hands setup etherTx tx → ¬ Overdrawn setup.env app.work.state app.work.header tx

section Envelopes

variable {app : EthermintApplication} {etherTx : EtherTx}

/-- What `CheckTx` and `DeliverTx` ask of an `lk` envelope, in one document. -/
theorem filled_iff {lkx : LKTransaction} (htype : etherTx.type = lkTxType)
    (hdecode : setup.services.decodeLK etherTx.tx = .ok lkx) :
    Filled setup etherTx ↔ (lkx.type = ethTxType → lkx.etx.bind EthTransaction.tx ≠ none) := by
  unfold Filled
  simp [htype, hdecode]

theorem verifiable_iff (htype : etherTx.type = "val") :
    Verifiable setup app etherTx ↔
      app.strategy.checkPanics setup.codec setup.crypto etherTx.tx = false := by
  unfold Verifiable Validators.TxBased.Strategy.checkPanics
  rw [← parsePanics_iff, Bool.not_eq_true]
  simp [htype]

theorem covered_iff {lkx : LKTransaction} (htype : etherTx.type = lkTxType)
    (hdecode : setup.services.decodeLK etherTx.tx = .ok lkx) :
    Covered setup app etherTx ↔ (lkx.type = ethTxType → ∀ tx,
      lkx.etx.bind EthTransaction.tx = some tx → signAccepted setup lkx = true →
        ¬ Overdrawn setup.env app.work.state app.work.header tx) := by
  have hplain : lkTxType ≠ "tx" := by decide
  unfold Covered Hands
  simp only [htype, hplain, false_and, false_or, true_and, hdecode, Except.ok.injEq,
    exists_eq_left']
  exact ⟨fun h het tx htx hsign ↦ h tx ⟨het, htx, hsign⟩,
    fun h tx ⟨het, htx, hsign⟩ ↦ h het tx htx hsign⟩

theorem returns_checkEnvelope_iff :
    Returns (checkEnvelope setup app etherTx) ↔
      Filled setup etherTx ∧ Verifiable setup app etherTx := by
  unfold checkEnvelope
  by_cases htx : etherTx.type = "tx"
  · rw [if_pos htx]
    cases hdecode : decodeTxString setup etherTx.tx <;> simp [Filled, Verifiable, htx, lkTxType]
  by_cases hval : etherTx.type = "val"
  · rw [if_neg htx, if_pos hval]
    rw [verifiable_iff hval]
    cases hpanics : app.strategy.checkPanics setup.codec setup.crypto etherTx.tx with
    | true => simp
    | false =>
      cases hcheck : app.strategy.checkValidatorTx setup.codec setup.crypto etherTx.tx <;>
        simp [Filled, hval, lkTxType]
  by_cases hlk : etherTx.type = lkTxType
  · rw [if_neg htx, if_neg hval, if_pos hlk]
    cases hdecode : setup.services.decodeLK etherTx.tx with
    | error error => simp [Filled, Verifiable, hdecode, hval]
    | ok lkx =>
      rw [filled_iff hlk hdecode]
      by_cases het : lkx.type = ethTxType
      · simp only [het, if_true]
        rw [returns_bind_pure_iff, returns_checkLKTransaction_iff app.check het]
        simp [Verifiable, hval]
      · simp [het, Verifiable, hval]
  · rw [if_neg htx, if_neg hval, if_neg hlk]
    simp [Filled, Verifiable, hval, hlk]

theorem returns_deliverEnvelope_iff {written : Bool} :
    Returns (deliverEnvelope setup written app etherTx) ↔
      Filled setup etherTx ∧ Verifiable setup app etherTx ∧ Covered setup app etherTx := by
  unfold deliverEnvelope
  by_cases htx : etherTx.type = "tx"
  · rw [if_pos htx]
    cases hdecode : decodeTxString setup etherTx.tx with
    | error error => simp [Filled, Verifiable, Covered, Hands, htx, hdecode, lkTxType]
    | ok tx =>
      rw [returns_bind_pure_iff, backendDeliverTx, Pending.returns_deliverTx_iff]
      simp [Filled, Verifiable, Covered, Hands, htx, hdecode, lkTxType]
  by_cases hval : etherTx.type = "val"
  · rw [if_neg htx, if_pos hval, verifiable_iff hval]
    cases hpanics : app.strategy.checkPanics setup.codec setup.crypto etherTx.tx <;>
      simp [Filled, Covered, Hands, hval, lkTxType]
  by_cases hlk : etherTx.type = lkTxType
  · rw [if_neg htx, if_neg hval, if_pos hlk]
    cases hdecode : setup.services.decodeLK etherTx.tx with
    | error error => simp [Filled, Verifiable, Covered, Hands, hdecode, hval, htx]
    | ok lkx =>
      rw [filled_iff hlk hdecode, covered_iff hlk hdecode]
      by_cases het : lkx.type = ethTxType
      · simp only [het, if_true]
        rw [returns_bind_pure_iff, returns_handleLKTransaction_iff written app.work het]
        simp [Verifiable, hval]
      · simp [het, Verifiable, hval]
  · rw [if_neg htx, if_neg hval, if_neg hlk]
    simp [Filled, Verifiable, Covered, Hands, htx, hval, hlk]

end Envelopes

/-- Both entry points return an answer exactly when the envelope, if the bytes contain one, holds no
hollow document, no signature under an empty key and no transaction that overdraws its sender. -/
theorem checkTx_deliverTx_return_iff (setup : Setup PubKey Signature NodeAddress) (written : Bool)
    (app : EthermintApplication) (txBytes : String) :
    Returns (checkTx setup app txBytes) ∧ Returns (deliverTx setup written app txBytes) ↔
      ∀ etherTx, readEnvelope setup txBytes = .ok etherTx →
        Filled setup etherTx ∧ Verifiable setup app etherTx ∧ Covered setup app etherTx := by
  unfold checkTx deliverTx
  cases hread : readEnvelope setup txBytes with
  | error error => simp
  | ok etherTx =>
    simp only [Except.ok.injEq, forall_eq']
    rw [returns_checkEnvelope_iff, returns_deliverEnvelope_iff]
    exact ⟨fun ⟨_, hdeliver⟩ ↦ hdeliver, fun h ↦ ⟨⟨h.1, h.2.1⟩, h⟩⟩

/-- An unsigned `et` document with nothing in it. -/
def hollowDocument : LKTransaction where
  type := ethTxType
  etx := none
  ctx := none
  stx := none
  sign := ""

/-- The hollow document stops the mempool check and the delivery. -/
theorem checkTx_deliverTx_hollow_panic :
    checkTx (sampleSetup [⟨lkTxType, ""⟩] hollowDocument [])
        (sampleApplication Validators.TxBased.newValidatorsStrategy) "0x00" =
      .error .nilDereference ∧
    deliverTx (sampleSetup [⟨lkTxType, ""⟩] hollowDocument []) true
        (sampleApplication Validators.TxBased.newValidatorsStrategy) "0x00" =
      .error .nilDereference :=
  ⟨rfl, rfl⟩

end LkChain.Ethermint.Totality
