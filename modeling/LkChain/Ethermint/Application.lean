import LkChain.Ethermint.Admission
import LkChain.Ethermint.InternalTxs
import LkChain.Validators.TxBased

/-!
# The application behind the consensus engine

`CheckTx` and `DeliverTx` of `app/app.go` take bytes from the network. They decode an envelope, and
hand its content to the mempool check, to the block under construction or to the validator strategy.
An `lk` envelope carries a JSON document whose pointer fields may be missing. The guards against
missing pointers stand in `isLKTxSignValid`, behind the early return for unsigned transactions, and
the callers hash the transaction also when the guards have failed.

Decoding, the signature check of `lk` transactions and the gas records come from outside and are
parameters. Following a missing pointer is the panic `nilDereference`. The arguments of a log call
are evaluated whether or not the line is written.
-/

namespace LkChain.Ethermint.Application

open Ethereum State Transactions Calls Transition Outcomes Admission
open Pending (Work DeliverError)
open InternalTxs (ContractTransaction RecordType SuicideTransaction)
open Validators.ParseTx (Codec Crypto ValidatorTx sampleCodec sampleCrypto)
open Validators.TxBased (Strategy)

/-! ## Envelopes -/

/-- `EtherTx`, the envelope of every transaction. -/
structure EtherTx where
  type : String
  tx : String

structure EthTransaction where
  tx : Option Transaction

/-- `LKTransaction` as it arrives from outside: JSON leaves a pointer field nil when it is missing. An
internal transaction comes with its index. -/
structure LKTransaction where
  type : String
  etx : Option EthTransaction
  ctx : Option (ContractTransaction × ℤ)
  stx : Option (SuicideTransaction × ℤ)
  sign : String

def lkTxType : String := "lk"
def ethTxType : String := "et"
def contractTxType : String := RecordType.text .contractTx
def suicideTxType : String := RecordType.text .suicideTx

/-- What the application uses and does not define: the decoders, the signed text and the hashes of
`lk` transactions, the verification of a signature under a key in hexadecimal, the gas records of
executed transactions, the bytes of a hash as `%s` prints them, and the text of the errors of a
delivery. -/
structure Services where
  hexDecode : String → Except String Bytes
  decodeEtherTx : Bytes → Except String EtherTx
  decodeRLP : Bytes → Except String Transaction
  decodeLK : String → Except String LKTransaction
  contractHash : ContractTransaction × ℤ → Hash
  suicideHash : SuicideTransaction × ℤ → Hash
  message : LKTransaction → Except String Bytes
  verifySignWithHexPubkey : String → Bytes → Bytes → Except String Bool
  getEthTransactionGas : Hash → Except String (Option ℤ)
  hashStr : Hash → String
  deliverErrorText : DeliverError → String

/-- Everything an instance of the application is run with. -/
structure Setup (PubKey Signature NodeAddress : Type) where
  env : Environment
  backend : Backend
  services : Services
  codec : Codec
  crypto : Crypto PubKey Signature NodeAddress

/-- The parts of `EthermintApplication` that `CheckTx` and `DeliverTx` change. -/
structure EthermintApplication where
  check : CheckState
  work : Work
  strategy : Strategy

section Application

variable {PubKey Signature NodeAddress : Type} (setup : Setup PubKey Signature NodeAddress)

def decodeTxString (tx : String) : Except String Transaction := do
  let txBytes ← setup.services.hexDecode tx
  setup.services.decodeRLP txBytes

/-- `EthTransaction.Hash`, with a receiver that may be nil. -/
def ethHash (etx : Option EthTransaction) : Except Panic Hash :=
  match etx with
  | none => .error .nilDereference
  | some etx =>
    match etx.tx with
    | none => .error .nilDereference
    | some tx => .ok (setup.env.recovery.txHash tx)

/-- `LKTransaction.Hash`. -/
def lkHash (lkx : LKTransaction) : Except Panic Hash :=
  if lkx.type = ethTxType then ethHash setup lkx.etx
  else if lkx.type = contractTxType then
    match lkx.ctx with
    | none => .error .nilDereference
    | some ctx => .ok (setup.services.contractHash ctx)
  else if lkx.type = suicideTxType then
    match lkx.stx with
    | none => .error .nilDereference
    | some stx => .ok (setup.services.suicideHash stx)
  else .ok 0

/-- `CheckTxSign`: the text of an error, if any. -/
def checkTxSign (tx : LKTransaction) (pub : String) : Option String :=
  match setup.services.message tx with
  | .error error => some ("Message: " ++ error)
  | .ok msg =>
    match setup.services.hexDecode tx.sign with
    | .error error => some ("hexutil.Decode: " ++ error)
    | .ok sig =>
      match setup.services.verifySignWithHexPubkey pub msg sig with
      | .error error => some ("VerifySignWithHexPubkey: " ++ error)
      | .ok false => some "Invalid Signature"
      | .ok true => none

/-- `isLKTxSignValid`, of a transaction that is not nil itself. -/
def isLKTxSignValid (lkx : LKTransaction) : Except Panic Bool :=
  if lkx.sign.isEmpty then .ok true
  else if lkx.type = ethTxType then
    match lkx.etx.bind EthTransaction.tx with
    | none => .ok false
    | some _ => do
      let _ ← lkHash setup lkx
      return (checkTxSign setup lkx "").isNone
  else .ok false

/-- The text of a refused signature. -/
def invalidSign (hash : Hash) : String :=
  "isLKTxSignValid: invalid, hash=" ++ setup.services.hashStr hash

/-- The history check of an `et` transaction, and the check of the transaction itself. -/
def checkEthTransaction (check : CheckState) (etx : Option EthTransaction) :
    Except Panic (CheckState × Response) := do
  let hash ← ethHash setup etx
  return match setup.services.getEthTransactionGas hash with
    | .error error => (check, ⟨1, "ldb error: " ++ error⟩)
    | .ok (some _) => (check, ⟨1, "tx exists"⟩)
    | .ok none => validateEthTx setup.env setup.backend check (etx.bind EthTransaction.tx)

def checkLKTransaction (check : CheckState) (lkx : LKTransaction) :
    Except Panic (CheckState × Response) := do
  let isValid ← isLKTxSignValid setup lkx
  if isValid then
    if lkx.type = ethTxType then checkEthTransaction setup check lkx.etx
    else return (check, ⟨0, ""⟩)
  else
    let hash ← lkHash setup lkx
    return (check, ⟨1, invalidSign setup hash⟩)

/-- `Backend.DeliverTx`; `ReportDeliverTx` looks into the transaction before it is delivered. -/
def backendDeliverTx (written : Bool) (work : Work) (tx : Option Transaction) :
    Except Panic (Work × Option DeliverError) :=
  match tx with
  | none => .error .nilDereference
  | some tx => Pending.deliverTx setup.env written work tx

/-- The delivery of an `et` transaction; its hash is logged afterwards. -/
def deliverEthTransaction (written : Bool) (work : Work) (lkx : LKTransaction) :
    Except Panic (Work × Option DeliverError) :=
  match lkx.etx with
  | none => .error .nilDereference
  | some etx => do
    let delivered ← backendDeliverTx setup written work etx.tx
    let _ ← lkHash setup lkx
    return delivered

/-- `handleLKTransaction`: the work and the text of an error. -/
def handleLKTransaction (written : Bool) (work : Work) (lkx : LKTransaction) :
    Except Panic (Work × Option String) := do
  let isValid ← isLKTxSignValid setup lkx
  if isValid then
    if lkx.type = ethTxType then
      let delivered ← deliverEthTransaction setup written work lkx
      return (delivered.1, delivered.2.map setup.services.deliverErrorText)
    else
      let _ ← lkHash setup lkx
      return (work, none)
  else
    let hash ← lkHash setup lkx
    return (work, some (invalidSign setup hash))

/-- The answer to a delivery with this error, if any. -/
def deliverResponse (error : Option String) : Response :=
  match error with
  | none => ⟨0, ""⟩
  | some error => ⟨1, error⟩

/-- The envelope in the bytes of a transaction. -/
def readEnvelope (txBytes : String) : Except String EtherTx := do
  let jsonBytes ← setup.services.hexDecode txBytes
  setup.services.decodeEtherTx jsonBytes

/-- The branches of `CheckTx`, by the type of the envelope. -/
def checkEnvelope (app : EthermintApplication) (etherTx : EtherTx) :
    Except Panic (EthermintApplication × Response) :=
  if etherTx.type = "tx" then
    match decodeTxString setup etherTx.tx with
    | .error error => .ok (app, ⟨1, error⟩)
    | .ok tx =>
      let checked := validateEthTx setup.env setup.backend app.check (some tx)
      .ok ({ app with check := checked.1 }, checked.2)
  else if etherTx.type = "val" then
    if app.strategy.checkPanics setup.codec setup.crypto etherTx.tx then .error .nilDereference
    else
      match app.strategy.checkValidatorTx setup.codec setup.crypto etherTx.tx with
      | .error _ => .ok (app, ⟨1, "Invalid ValidatorTx"⟩)
      | .ok _ => .ok (app, ⟨0, ""⟩)
  else if etherTx.type = lkTxType then
    match setup.services.decodeLK etherTx.tx with
    | .error _ => .ok (app, ⟨1, "Decode LKTransaction error"⟩)
    | .ok lkx =>
      if lkx.type = ethTxType then do
        let checked ← checkLKTransaction setup app.check lkx
        return ({ app with check := checked.1 }, checked.2)
      else .ok (app, ⟨1, "invalid tx type"⟩)
  else .ok (app, ⟨1, "Unknown Type"⟩)

def checkTx (app : EthermintApplication) (txBytes : String) :
    Except Panic (EthermintApplication × Response) :=
  match readEnvelope setup txBytes with
  | .error error => .ok (app, ⟨1, error⟩)
  | .ok etherTx => checkEnvelope setup app etherTx

/-- The branches of `DeliverTx`, by the type of the envelope. A validator transaction is answered
with success whatever becomes of it. -/
def deliverEnvelope (written : Bool) (app : EthermintApplication) (etherTx : EtherTx) :
    Except Panic (EthermintApplication × Response) :=
  if etherTx.type = "tx" then
    match decodeTxString setup etherTx.tx with
    | .error error => .ok (app, ⟨1, error⟩)
    | .ok tx => do
      let delivered ← backendDeliverTx setup written app.work (some tx)
      return ({ app with work := delivered.1 },
        deliverResponse (delivered.2.map setup.services.deliverErrorText))
  else if etherTx.type = "val" then
    if app.strategy.checkPanics setup.codec setup.crypto etherTx.tx then .error .nilDereference
    else
      let collected := app.strategy.collectTx setup.codec setup.crypto etherTx.tx
      .ok ({ app with strategy := collected.1 }, ⟨0, ""⟩)
  else if etherTx.type = lkTxType then
    match setup.services.decodeLK etherTx.tx with
    | .error _ => .ok (app, ⟨1, "Decode LKTransaction error"⟩)
    | .ok lkx =>
      if lkx.type = ethTxType then do
        let handled ← handleLKTransaction setup written app.work lkx
        return ({ app with work := handled.1 }, deliverResponse handled.2)
      else .ok (app, ⟨1, "invalid tx type"⟩)
  else .ok (app, ⟨1, "Unknown Type"⟩)

def deliverTx (written : Bool) (app : EthermintApplication) (txBytes : String) :
    Except Panic (EthermintApplication × Response) :=
  match readEnvelope setup txBytes with
  | .error error => .ok (app, ⟨1, error⟩)
  | .ok etherTx => deliverEnvelope setup written app etherTx

end Application

/-! ## What reaches the strategy -/

section Strategy

variable {PubKey Signature NodeAddress : Type} {setup : Setup PubKey Signature NodeAddress}
  {app after : EthermintApplication} {etherTx : EtherTx} {txBytes : String} {response : Response}

theorem checkEnvelope_strategy
    (hchecked : checkEnvelope setup app etherTx = .ok (after, response)) :
    after.strategy = app.strategy := by
  unfold checkEnvelope at hchecked
  by_cases htx : etherTx.type = "tx"
  · rw [if_pos htx] at hchecked
    split at hchecked <;> cases hchecked <;> rfl
  rw [if_neg htx] at hchecked
  by_cases hval : etherTx.type = "val"
  · rw [if_pos hval] at hchecked
    split at hchecked
    · cases hchecked
    · split at hchecked <;> cases hchecked <;> rfl
  rw [if_neg hval] at hchecked
  by_cases hlk : etherTx.type = lkTxType
  · rw [if_pos hlk] at hchecked
    split at hchecked
    · cases hchecked
      rfl
    · split at hchecked
      · rw [Foundation.Results.bind_eq_ok_iff] at hchecked
        obtain ⟨checked, -, hreturn⟩ := hchecked
        cases hreturn
        rfl
      · cases hchecked
        rfl
  · rw [if_neg hlk] at hchecked
    cases hchecked
    rfl

theorem checkTx_strategy (hchecked : checkTx setup app txBytes = .ok (after, response)) :
    after.strategy = app.strategy := by
  unfold checkTx at hchecked
  split at hchecked
  · cases hchecked
    rfl
  · exact checkEnvelope_strategy hchecked

theorem deliverEnvelope_strategy {written : Bool}
    (hdelivered : deliverEnvelope setup written app etherTx = .ok (after, response)) :
    after.strategy = app.strategy ∨ etherTx.type = "val" ∧
      after.strategy = (app.strategy.collectTx setup.codec setup.crypto etherTx.tx).1 := by
  unfold deliverEnvelope at hdelivered
  by_cases htx : etherTx.type = "tx"
  · left
    rw [if_pos htx] at hdelivered
    split at hdelivered
    · cases hdelivered
      rfl
    · rw [Foundation.Results.bind_eq_ok_iff] at hdelivered
      obtain ⟨delivered, -, hreturn⟩ := hdelivered
      cases hreturn
      rfl
  rw [if_neg htx] at hdelivered
  by_cases hval : etherTx.type = "val"
  · right
    rw [if_pos hval] at hdelivered
    split at hdelivered
    · cases hdelivered
    · cases hdelivered
      exact ⟨hval, rfl⟩
  left
  rw [if_neg hval] at hdelivered
  by_cases hlk : etherTx.type = lkTxType
  · rw [if_pos hlk] at hdelivered
    split at hdelivered
    · cases hdelivered
      rfl
    · split at hdelivered
      · rw [Foundation.Results.bind_eq_ok_iff] at hdelivered
        obtain ⟨handled, -, hreturn⟩ := hdelivered
        cases hreturn
        rfl
      · cases hdelivered
        rfl
  · rw [if_neg hlk] at hdelivered
    cases hdelivered
    rfl

theorem deliverTx_strategy {written : Bool}
    (hdelivered : deliverTx setup written app txBytes = .ok (after, response)) :
    after.strategy = app.strategy ∨ ∃ etherTx, readEnvelope setup txBytes = .ok etherTx ∧
      etherTx.type = "val" ∧
      after.strategy = (app.strategy.collectTx setup.codec setup.crypto etherTx.tx).1 := by
  unfold deliverTx at hdelivered
  cases hread : readEnvelope setup txBytes with
  | error error =>
    rw [hread] at hdelivered
    cases hdelivered
    exact Or.inl rfl
  | ok etherTx =>
    rw [hread] at hdelivered
    cases deliverEnvelope_strategy hdelivered with
    | inl hsame => exact Or.inl hsame
    | inr hcollected => exact Or.inr ⟨etherTx, rfl, hcollected⟩

end Strategy

/-! ## An application to compute with -/

/-- The bytes `0x00`, `0x01` and so on are the envelopes of that number; every `lk` envelope holds
the given document. -/
def sampleServices (envelopes : List EtherTx) (document : LKTransaction) : Services where
  hexDecode s := match (sampleCodec []).fromHex s with
    | some bytes => .ok bytes
    | none => .error "no bytes"
  decodeEtherTx bytes := match bytes with
    | [number] => match envelopes[number.toNat]? with
      | some envelope => .ok envelope
      | none => .error "unknown number"
    | _ => .error "not one byte"
  decodeRLP _ := .error "no transaction"
  decodeLK _ := .ok document
  contractHash _ := 0
  suicideHash _ := 0
  message _ := .ok []
  verifySignWithHexPubkey _ _ _ := .error "no key"
  getEthTransactionGas _ := .ok none
  hashStr _ := ""
  deliverErrorText _ := ""

/-- An application with these envelopes, this document and these validator transactions. -/
def sampleSetup (envelopes : List EtherTx) (document : LKTransaction) (txs : List ValidatorTx) :
    Setup UInt8 UInt8 ℕ where
  env := sampleEnvironment 7 stopInterpreter
  backend := sampleBackend
  services := sampleServices envelopes document
  codec := sampleCodec txs
  crypto := sampleCrypto

/-- A new application with these validators, on a chain with one account. -/
def sampleApplication (strategy : Strategy) : EthermintApplication where
  check := ⟨soleAccount 7 10, fun _ ↦ 0⟩
  work := Pending.emptyWork (sampleHeader 9) (soleAccount 7 10)
  strategy := strategy

end LkChain.Ethermint.Application
