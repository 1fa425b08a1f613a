import LkChain.Tendermint.ValSet

/-!
# The state between two blocks

`State` with the two functions that make one: `MakeGenesisState` from a genesis document, and
`updateState` from the state before a block and the responses of the application. Heights and counts
of transactions are integers without a bound.
-/

namespace LkChain.Tendermint.ChainState

open Foundation.Stops Tendermint.Types ValSet
open Validators.ParseTx (Bytes Crypto sampleCrypto)

variable {PubKey Signature Address : Type}

/-! ## Consensus parameters -/

/-- The errors of `ConsensusParams.Validate`. -/
inductive ParamsError where
  | maxBytesNotPositive (maxBytes : ℤ)
  | partSizeNotPositive (partSize : ℤ)
  | maxBytesTooBig (maxBytes : ℤ)
deriving DecidableEq

def maxBlockSizeBytes : ℤ := 104857600

def defaultConsensusParams : ConsensusParams :=
  ⟨⟨22020096, 100000, -1⟩, ⟨10240, -1⟩, 65536, 100000⟩

/-- `ConsensusParams.Validate`. -/
def validateParams (params : ConsensusParams) : Except ParamsError Unit :=
  if params.blockSize.maxBytes ≤ 0 then .error (.maxBytesNotPositive params.blockSize.maxBytes)
  else if params.blockPartSizeBytes ≤ 0 then
    .error (.partSizeNotPositive params.blockPartSizeBytes)
  else if maxBlockSizeBytes < params.blockSize.maxBytes then
    .error (.maxBytesTooBig params.blockSize.maxBytes)
  else .ok ()

/-- Parameters that pass `Validate`. -/
def ValidParams (params : ConsensusParams) : Prop := validateParams params = .ok ()

instance (params : ConsensusParams) : Decidable (ValidParams params) :=
  inferInstanceAs (Decidable (validateParams params = .ok ()))

theorem ValidParams.maxBytes_pos {params : ConsensusParams} (hvalid : ValidParams params) :
    0 < params.blockSize.maxBytes := by
  unfold ValidParams validateParams at hvalid
  split at hvalid
  next => cases hvalid
  next hpos => exact not_le.mp hpos

theorem ValidParams.partSize_pos {params : ConsensusParams} (hvalid : ValidParams params) :
    0 < params.blockPartSizeBytes := by
  unfold ValidParams validateParams at hvalid
  split at hvalid
  next => cases hvalid
  next =>
    split at hvalid
    next => cases hvalid
    next hpos => exact not_le.mp hpos

theorem ValidParams.ne_empty {params : ConsensusParams} (hvalid : ValidParams params) :
    params ≠ .empty := by
  intro hempty
  have hpos := hvalid.maxBytes_pos
  rw [hempty] at hpos
  exact absurd hpos (lt_irrefl 0)

theorem validParams_default : ValidParams defaultConsensusParams := by decide

/-- A field that an update sets when it is positive. -/
def positiveOr (update current : ℤ) : ℤ := if 0 < update then update else current

/-- `ConsensusParams.Update` on an update that is not nil. -/
def updateParams (params : ConsensusParams) (params2 : ConsensusParamUpdates) : ConsensusParams :=
  { blockSize := params2.blockSize.elim params.blockSize fun size ↦
      ⟨positiveOr size.maxBytes params.blockSize.maxBytes,
        positiveOr size.maxTxs params.blockSize.maxTxs,
        positiveOr size.maxGas params.blockSize.maxGas⟩
    txSize := params2.txSize.elim params.txSize fun size ↦
      ⟨positiveOr size.maxBytes params.txSize.maxBytes,
        positiveOr size.maxGas params.txSize.maxGas⟩
    blockPartSizeBytes := params2.blockPartSizeBytes.elim params.blockPartSizeBytes fun size ↦
      positiveOr size params.blockPartSizeBytes
    evidenceMaxAge := params.evidenceMaxAge }

/-! ## Genesis -/

structure GenesisValidator (PubKey : Type) where
  pubKey : PubKey
  power : ℤ

/-- `GenesisDoc`; the time is `none` when it is zero. -/
structure GenesisDoc (PubKey : Type) where
  genesisTime : Option ℤ
  chainID : String
  consensusParams : Option ConsensusParams
  validators : List (GenesisValidator PubKey)
  appHash : Bytes
  blockStartNum : ℤ
  coinbase : String

/-- The errors of `ValidateAndComplete`. -/
inductive GenesisError where
  | noChainID
  | params (error : ParamsError)
  | noValidators
  | noPower
deriving DecidableEq

/-- The parameters of the completed document. -/
def GenesisDoc.completeParams (genDoc : GenesisDoc PubKey) : Except GenesisError ConsensusParams :=
  match genDoc.consensusParams with
  | none => .ok defaultConsensusParams
  | some params =>
    match validateParams params with
    | .error error => .error (.params error)
    | .ok () => .ok params

/-- `ValidateAndComplete`: the time and the parameters of the completed document. -/
def GenesisDoc.validateAndComplete (genDoc : GenesisDoc PubKey) (now : ℤ) :
    Except GenesisError (ℤ × ConsensusParams) :=
  if genDoc.chainID = "" then .error .noChainID
  else do
    let params ← genDoc.completeParams
    if genDoc.validators.isEmpty then .error .noValidators
    else if genDoc.validators.any fun v ↦ v.power = 0 then .error .noPower
    else .ok (genDoc.genesisTime.getD now, params)

structure State (PubKey Address : Type) where
  chainID : String
  lastBlockHeight : ℤ
  lastBlockTotalTx : ℤ
  lastBlockID : BlockID
  lastBlockTime : ℤ
  validators : ValidatorSet PubKey Address
  lastValidators : ValidatorSet PubKey Address
  lastHeightValidatorsChanged : ℤ
  consensusParams : ConsensusParams
  lastHeightConsensusParamsChanged : ℤ
  lastResultsHash : Bytes
  appHash : Bytes
  coinbase : String
deriving DecidableEq

variable [LinearOrder Address] (crypto : Crypto PubKey Signature Address)

/-- The slice of validators that `MakeGenesisState` fills in. -/
def GenesisDoc.validatorSlice (genDoc : GenesisDoc PubKey) :
    Fallible GenesisError (List (Validator PubKey Address)) :=
  genDoc.validators.mapM fun val ↦
    if crypto.empty val.pubKey then .error (.panic .nilDereference)
    else .ok (newValidator crypto val.pubKey val.power)

def makeGenesisState (now : ℤ) (genDoc : GenesisDoc PubKey) :
    Fallible GenesisError (State PubKey Address) := do
  let (time, params) ← (genDoc.validateAndComplete now).mapError .error
  let validators ← genDoc.validatorSlice crypto
  let valSet ← newValidatorSet (some validators)
  let lastValSet ← newValidatorSet none
  return {
    chainID := genDoc.chainID
    lastBlockHeight := genDoc.blockStartNum
    lastBlockTotalTx := 0
    lastBlockID := .zero
    lastBlockTime := time
    validators := valSet
    lastValidators := lastValSet
    lastHeightValidatorsChanged := genDoc.blockStartNum + 1
    consensusParams := params
    lastHeightConsensusParamsChanged := 1
    lastResultsHash := []
    appHash := genDoc.appHash
    coinbase := genDoc.coinbase }

/-! ## After a block -/

/-- The errors of `updateState`. -/
inductive StateError (Address : Type) where
  | validators (error : UpdateError Address)
  | params (error : ParamsError)

variable (wire : Wire PubKey Signature Address)

/-- The validators of the next height, and the height of their last change. -/
def nextValidators (s : State PubKey Address) (header : Header) (responses : ABCIResponses) :
    Fallible (StateError Address) (ValidatorSet PubKey Address × ℤ) := do
  let nextValSet ← (s.validators.updateState crypto responses.validatorUpdates).mapError
    (Stop.map .validators)
  return (nextValSet, if responses.validatorUpdates.isEmpty then s.lastHeightValidatorsChanged
    else header.height + 1)

/-- The parameters of the next height, and the height of their last change. -/
def nextParams (s : State PubKey Address) (header : Header) (responses : ABCIResponses) :
    Fallible (StateError Address) (ConsensusParams × ℤ) :=
  match responses.consensusParamUpdates with
  | none => .ok (s.consensusParams, s.lastHeightConsensusParamsChanged)
  | some updates =>
    let params := updateParams s.consensusParams updates
    match validateParams params with
    | .error error => .error (.error (.params error))
    | .ok () => .ok (params, header.height + 1)

def updateState (s : State PubKey Address) (blockID : BlockID) (header : Header)
    (responses : ABCIResponses) : Fallible (StateError Address) (State PubKey Address) := do
  let (nextValSet, lastHeightValsChanged) ← nextValidators crypto s header responses
  let (params, lastHeightParamsChanged) ← nextParams s header responses
  return {
    chainID := s.chainID
    lastBlockHeight := header.height
    lastBlockTotalTx := s.lastBlockTotalTx + header.numTxs
    lastBlockID := blockID
    lastBlockTime := header.time
    validators := nextValSet
    lastValidators := s.validators
    lastHeightValidatorsChanged := lastHeightValsChanged
    consensusParams := params
    lastHeightConsensusParamsChanged := lastHeightParamsChanged
    lastResultsHash := wire.resultsHash responses.deliverTx
    appHash := []
    coinbase := header.coinbase }

/-- A document with one validator of power 10. -/
def sampleGenesis (blockStartNum : ℤ) : GenesisDoc UInt8 where
  genesisTime := some 100
  chainID := "chain"
  consensusParams := none
  validators := [⟨1, 10⟩]
  appHash := [0]
  blockStartNum := blockStartNum
  coinbase := "genesis"

/-- The state of `sampleGenesis`. -/
def sampleState (blockStartNum : ℤ) : State UInt8 ℕ where
  chainID := "chain"
  lastBlockHeight := blockStartNum
  lastBlockTotalTx := 0
  lastBlockID := .zero
  lastBlockTime := 100
  validators := ⟨[⟨1, 1, 10, 0⟩], some ⟨1, 1, 10, 0⟩, 10, .inr rfl⟩
  lastValidators := .of []
  lastHeightValidatorsChanged := blockStartNum + 1
  consensusParams := defaultConsensusParams
  lastHeightConsensusParamsChanged := 1
  lastResultsHash := []
  appHash := [0]
  coinbase := "genesis"

example (blockStartNum : ℤ) : makeGenesisState sampleCrypto 0 (sampleGenesis blockStartNum) =
    .ok (sampleState blockStartNum) := rfl

end LkChain.Tendermint.ChainState
