import LkChain.Foundation.Schedules
import LkChain.Tendermint.Execution
import LkChain.Tendermint.Predecessor

/-!
# Proposing a block

`State.MakeBlock` builds the block that a proposer puts forward and `validateBlock` checks what
others have put forward. Both fill in or check the fields of the header on their own. In every state
of a chain that starts at height zero a block that was built with a commit for the last block passes
the checks.
-/

namespace LkChain.Tendermint.Proposals

open Foundation Foundation.Stops Tendermint.Types ValSet ChainState StateStore VerifyCommit
    Validation History
open Validators.ParseTx (Bytes Crypto sampleCrypto)

variable {PubKey Signature Address Error : Type}

section Program

variable (wire : Wire PubKey Signature Address) (now : ℤ)

/-- The block of `types.MakeBlock` before its header is filled. -/
def unfilledBlock (height : ℤ) (txs : List Bytes) (commit : Option (Commit Signature Address)) :
    Block PubKey Signature Address where
  header :=
    { chainID := ""
      height := height
      time := now
      numTxs := txs.length
      lastBlockID := .zero
      totalTxs := 0
      lastCommitHash := none
      dataHash := none
      validatorsHash := []
      consensusHash := []
      appHash := []
      lastResultsHash := []
      evidenceHash := none
      coinbase := "" }
  data := some txs
  evidence := []
  lastCommit := commit

/-- `types.MakeBlock`, at some time. -/
def makeBlock (height : ℤ) (txs : List Bytes) (commit : Option (Commit Signature Address)) :
    Fallible Error (Block PubKey Signature Address) := do
  let block := unfilledBlock now height txs commit
  let header ← block.fillHeader wire
  return { block with header := header }

/-- The header with what `State.MakeBlock` takes from the state. -/
def stateHeader (s : State PubKey Address) (coinbase : String) (header : Header) : Header :=
  { header with
    chainID := s.chainID
    totalTxs := s.lastBlockTotalTx + header.numTxs
    lastBlockID := s.lastBlockID
    validatorsHash := s.validators.hash wire
    appHash := s.appHash
    consensusHash := s.consensusParams.hash wire
    lastResultsHash := s.lastResultsHash
    coinbase := coinbase }

/-- `State.MakeBlock`. -/
def stateMakeBlock (s : State PubKey Address) (coinbase : String) (height : ℤ) (txs : List Bytes)
    (commit : Option (Commit Signature Address)) :
    Fallible Error (Block PubKey Signature Address × PartSet) := do
  let block ← makeBlock wire now height txs commit
  let block := { block with header := stateHeader wire s coinbase block.header }
  let parts ← block.makePartSet wire s.consensusParams.blockPartSizeBytes
  return (block, parts)

end Program

/-! ## What a proposer needs -/

/-- A commit to build a block with: none of the first block, and otherwise one for the last block
that its validators have signed. -/
structure Suits (crypto : Crypto PubKey Signature Address) (wire : Wire PubKey Signature Address)
    (s : State PubKey Address) (commit : Commit Signature Address) : Prop where
  start : commit.nStartBlockNum = 0
  first : s.lastBlockHeight = 0 → commit.precommits = []
  verified : s.lastBlockHeight ≠ 0 → verifyCommit crypto wire s.lastValidators s.chainID
    s.lastBlockID s.lastBlockHeight (some commit) = .ok ()
  block : s.lastBlockHeight ≠ 0 → commit.blockID = s.lastBlockID
  nonzero : s.lastBlockHeight ≠ 0 → commit.blockID.isZero = false

/-- What is kept of the states of a chain that starts at height zero. -/
structure Proposing (s : State PubKey Address) : Prop where
  params : ValidParams s.consensusParams
  validators : s.validators.validators ≠ []
  lastValidators : s.lastBlockHeight ≠ 0 → s.lastValidators.validators ≠ []

section Reachable

variable [LinearOrder Address] {crypto : Crypto PubKey Signature Address}
  {wire : Wire PubKey Signature Address} {genDoc : GenesisDoc PubKey} {now : ℤ}
  {genesis s next : State PubKey Address}

theorem validators_of_makeGenesisState
    (hgenesis : makeGenesisState crypto now genDoc = .ok genesis) :
    genesis.validators.validators ≠ [] := by
  unfold makeGenesisState at hgenesis
  simp only [Results.bind_eq_ok_iff] at hgenesis
  obtain ⟨_, _, slice, _, valSet, hvalSet, _, _, hreturn⟩ := hgenesis
  cases hreturn
  exact ValidatorSet.nonempty_of_incrementAccum hvalSet

theorem proposing_genesis (hgenesis : makeGenesisState crypto now genDoc = .ok genesis)
    (hstart : genDoc.blockStartNum = 0) : Proposing genesis where
  params := (isGenesis_of_makeGenesisState hgenesis).validParams
  validators := validators_of_makeGenesisState hgenesis
  lastValidators hheight := by
    rw [(isGenesis_of_makeGenesisState hgenesis).lastBlockHeight] at hheight
    exact absurd hstart hheight

theorem Proposing.step {block : Applied} (hproposing : Proposing s)
    (hnext : nextState crypto wire s block = .ok next) : Proposing next where
  params := (follows_of_nextState hnext).validParams hproposing.params
  validators := Execution.validators_of_nextState hnext
  lastValidators _ := by
    rw [(follows_of_nextState hnext).lastValidators]
    exact hproposing.validators

theorem proposing_of_run {blocks : List Applied}
    (hgenesis : makeGenesisState crypto now genDoc = .ok genesis)
    (hstart : genDoc.blockStartNum = 0)
    (hrun : Schedules.run (nextState crypto wire) genesis blocks = .ok s) : Proposing s :=
  Schedules.invariant Proposing (fun _ _ _ _ hproposing hnext ↦ hproposing.step hnext)
    (proposing_genesis hgenesis hstart) hrun

end Reachable

/-! ## The checks of the block -/

section Checks

variable {crypto : Crypto PubKey Signature Address} {wire : Wire PubKey Signature Address}
  {s : State PubKey Address} {commit : Commit Signature Address} {now height : ℤ}
  {coinbase : String} {txs : List Bytes}

/-- The block that is built. -/
def proposedBlock (wire : Wire PubKey Signature Address) (now : ℤ) (s : State PubKey Address)
    (coinbase : String) (height : ℤ) (txs : List Bytes) (commit : Commit Signature Address) :
    Block PubKey Signature Address :=
  let block : Block PubKey Signature Address := unfilledBlock now height txs (some commit)
  { block with
    header := stateHeader wire s coinbase
      { block.header with
        lastCommitHash := some (wire.precommitsHash commit.precommits)
        dataHash := some (wire.txsHash txs)
        evidenceHash := some (wire.evidenceHash []) } }

theorem stateMakeBlock_eq_ok (hparams : ValidParams s.consensusParams) :
    ∃ parts, (stateMakeBlock wire now s coinbase height txs (some commit) : Fallible Error _) =
      .ok (proposedBlock wire now s coinbase height txs commit, parts) := by
  obtain ⟨parts, hparts⟩ : Results.Returns
      ((proposedBlock wire now s coinbase height txs commit).makePartSet wire
        s.consensusParams.blockPartSizeBytes : Fallible Error PartSet) :=
    returns_makePartSet hparams.partSize_pos
  refine ⟨parts, Results.bind_eq_ok_iff.mpr ⟨_, rfl, ?_⟩⟩
  exact Results.bind_eq_ok_iff.mpr ⟨parts, hparts, rfl⟩

theorem validateBasic_proposedBlock (hcommit : validateLastCommit height commit = .ok ()) :
    (proposedBlock wire now s coinbase height txs commit).validateBasic wire = .ok
    (txs, commit) := by
  unfold Block.validateBasic
  dsimp only [proposedBlock, unfilledBlock, stateHeader]
  rw [hcommit]
  simp [evidenceListHash, hashBytes, bind, Except.bind]

/-- Every field that is taken from the state is found in it again. -/
theorem validateHeader_proposedBlock :
    (validateHeader wire s
      (proposedBlock wire now s coinbase (s.lastBlockHeight + 1) txs commit).header txs.length :
        Except (ValidationError Signature Address) Unit) = .ok () := by
  unfold validateHeader
  dsimp only [proposedBlock, unfilledBlock, stateHeader]
  simp only [ne_eq, not_true_eq_false, if_false]

theorem validateLastCommit_of_suits (hproposing : Proposing s)
    (hsuits : Suits crypto wire s commit) :
    validateLastCommit (s.lastBlockHeight + 1) commit = .ok () := by
  unfold validateLastCommit
  rw [hsuits.start]
  split
  next => rfl
  next hlater =>
    have hheight : s.lastBlockHeight ≠ 0 := fun hzero ↦ hlater (by rw [hzero])
    have hsize : s.lastValidators.size ≠ 0 :=
      mt List.length_eq_zero_iff.mp (hproposing.lastValidators hheight)
    exact (Predecessor.validateBasic_of_verifyCommit hsize (hsuits.verified hheight)).mpr
      (hsuits.nonzero hheight)

theorem validateCommit_of_suits (hproposing : Proposing s) (hsuits : Suits crypto wire s commit)
    {block : Block PubKey Signature Address}
    (hblock : block.header.height = s.lastBlockHeight + 1) :
    validateCommit crypto wire s block commit = .ok () := by
  unfold validateCommit
  rw [hblock]
  by_cases hheight : s.lastBlockHeight = 0
  · rw [if_pos (.inl (by rw [hheight, zero_add])), hsuits.first hheight]
    rfl
  · have hsize : s.lastValidators.size ≠ 0 :=
      mt List.length_eq_zero_iff.mp (hproposing.lastValidators hheight)
    have hverified := hsuits.verified hheight
    have hlength := (verifyCommit_eq_ok_iff_checks.mp hverified).1
    rw [if_neg (by omega), if_neg (not_not.mpr hlength), add_sub_cancel_right, hverified]
    rfl

/-- A block that is built on a state of the chain, with a commit for the last block, is valid on
that state. -/
theorem proposed_block_validates [LinearOrder Address] {genDoc : GenesisDoc PubKey}
    {genesisTime : ℤ} {genesis : State PubKey Address} {blocks : List Applied}
    (hgenesis : makeGenesisState crypto genesisTime genDoc = .ok genesis)
    (hstart : genDoc.blockStartNum = 0)
    (hrun : Schedules.run (nextState crypto wire) genesis blocks = .ok s)
    (hsuits : Suits crypto wire s commit) (db : StateDB PubKey Address) (now : ℤ)
    (coinbase : String) (txs : List Bytes) :
    ∃ block parts, (stateMakeBlock wire now s coinbase (s.lastBlockHeight + 1) txs (some commit) :
        Fallible Empty _) = .ok (block, parts) ∧
      validateBlock crypto wire db s block = .ok () := by
  have hproposing := proposing_of_run hgenesis hstart hrun
  obtain ⟨parts, hparts⟩ := stateMakeBlock_eq_ok hproposing.params
  refine ⟨_, parts, hparts, ?_⟩
  unfold validateBlock
  rw [validateBasic_proposedBlock (validateLastCommit_of_suits hproposing hsuits)]
  refine Results.bind_eq_ok_iff.mpr ⟨(txs, commit), rfl, ?_⟩
  refine Results.bind_eq_ok_iff.mpr ⟨(), ?_, ?_⟩
  · rw [validateHeader_proposedBlock]
    rfl
  · exact Results.bind_eq_ok_iff.mpr ⟨(), validateCommit_of_suits hproposing hsuits rfl, rfl⟩

end Checks

/-! ## Samples -/

def firstBlockID : BlockID := ⟨[9], ⟨1, [9]⟩⟩

/-- The first block of the sample chain. -/
def firstApplied : Applied where
  blockID := firstBlockID
  header := (unfilledBlock 101 1 [] none : Block UInt8 UInt8 ℕ).header
  responses := ⟨[], [], none⟩
  appHash := [1]

/-- The commit for it, signed by the only validator. -/
def firstCommit : Commit UInt8 ℕ :=
  ⟨firstBlockID, [some { samplePrecommit firstBlockID 1 with height := 1 }], 0⟩

/-- The second block of the sample chain is valid. -/
theorem second_block_validates :
    ∃ s, Schedules.run (nextState sampleCrypto sampleWire) (sampleState 0) [firstApplied] = .ok s ∧
      ∃ block parts, (stateMakeBlock sampleWire 102 s "miner" (s.lastBlockHeight + 1) [[5]]
          (some firstCommit) : Fallible Empty _) = .ok (block, parts) ∧
        validateBlock sampleCrypto sampleWire .empty s block = .ok () := by
  have hgenesis : makeGenesisState sampleCrypto 0 (sampleGenesis 0) = .ok (sampleState 0) := rfl
  have hrun : Schedules.run (nextState sampleCrypto sampleWire) (sampleState 0) [firstApplied] =
    .ok _ := rfl
  refine ⟨_, hrun, proposed_block_validates hgenesis rfl hrun ?_ .empty 102 "miner" [[5]]⟩
  exact ⟨rfl, fun hzero ↦ absurd hzero (by decide), fun _ ↦ rfl, fun _ ↦ rfl, fun _ ↦ rfl⟩

end LkChain.Tendermint.Proposals
