import LkChain.Tendermint.BlockStore
import LkChain.Tendermint.History
import LkChain.Tendermint.Validation

/-!
# Executing blocks

A node saves a block in the block store, has the application execute and commit it, and saves the
next state. The application is deterministic: its answers to a block depend on its content only.
`processBlock` is what a running node does with a block; a run is a sequence of such steps from
genesis. A node that restarts reads its state back from the database, which makes no difference to
what it does next.
-/

namespace LkChain.Tendermint.Execution

open Foundation Foundation.Stops Tendermint.Types ValSet ChainState StateStore History Validation
    BlockStore
open Validators.ParseTx (Bytes Crypto)

variable {PubKey Signature Address Content : Type}

/-- A deterministic application. -/
structure Application (PubKey Signature Address Content : Type) where
  /-- The content after `InitChain` with these validators. -/
  initChain : Content → List Validators.TxBased.Validator → Content
  /-- The answers to the transactions and the end of a block. -/
  exec : Content → Block PubKey Signature Address → ABCIResponses
  /-- The content after a block is executed and committed. -/
  next : Content → Block PubKey Signature Address → Content
  /-- The hash that `Commit` answers with. -/
  hash : Content → Bytes

/-- The height and the content of an application. -/
structure AppState (Content : Type) where
  height : ℤ
  content : Content

/-- The application after `Commit` of a block. -/
def Application.commit (app : Application PubKey Signature Address Content)
    (appState : AppState Content) (block : Block PubKey Signature Address) : AppState Content :=
  ⟨appState.height + 1, app.next appState.content block⟩

/-- The errors that stop a node. -/
inductive NodeError (Signature Address : Type) where
  | invalidBlock (error : ValidationError Signature Address)
  | stateError (error : StateError Address)
  | negativeHeight (height : ℤ)
  | appBlockHeightTooHigh (store app : ℤ)
  | load (error : LoadError)

/-- A running node: what it has stored, its application and the state in its memory. -/
structure Node (PubKey Signature Address Content : Type) where
  store : Store Signature Address
  db : StateDB PubKey Address
  app : AppState Content
  state : State PubKey Address

section Program

variable [LinearOrder Address] (crypto : Crypto PubKey Signature Address)
  (wire : Wire PubKey Signature Address) (app : Application PubKey Signature Address Content)

/-- `ApplyBlock` with an application that gives these answers. -/
def applyBlock (db : StateDB PubKey Address) (s : State PubKey Address) (blockID : BlockID)
    (block : Block PubKey Signature Address) (responses : ABCIResponses) (appHash : Bytes) :
    Fallible (NodeError Signature Address) (StateDB PubKey Address × State PubKey Address) := do
  (validateBlock crypto wire db s block).mapError (Stop.map .invalidBlock)
  let db := saveABCIResponses db block.header.height responses
  let s ← (nextState crypto wire s ⟨blockID, block.header, responses, appHash⟩).mapError
    (Stop.map .stateError)
  return (saveState db s, s)

/-- What a running node does with the next block and the commit that it has seen for it. -/
def processBlock (node : Node PubKey Signature Address Content)
    (input : Block PubKey Signature Address × Commit Signature Address) :
    Fallible (NodeError Signature Address) (Node PubKey Signature Address Content) := do
  let (block, seenCommit) := input
  let parts ← block.makePartSet wire node.state.consensusParams.blockPartSizeBytes
  let (_, hash) ← block.hash wire
  let store ← saveBlock wire node.store block parts seenCommit
  let appState := app.commit node.app block
  let (db, state) ← applyBlock crypto wire node.db node.state ⟨hash, parts.header⟩ block
    (app.exec node.app.content block) (app.hash appState.content)
  return ⟨store, db, appState, state⟩

/-- A run over blocks. -/
def processBlocks (node : Node PubKey Signature Address Content)
    (inputs : List (Block PubKey Signature Address × Commit Signature Address)) :
    Fallible (NodeError Signature Address) (Node PubKey Signature Address Content) :=
  inputs.foldlM (processBlock crypto wire app) node

/-- A node before its first block. The block store and the application are at the height that the
chain starts from. -/
def genesisNode (genesis : State PubKey Address) (content : Content) :
    Node PubKey Signature Address Content :=
  { store := newBlockStore (.startingAt genesis.lastBlockHeight)
    db := saveState .empty genesis
    app := ⟨genesis.lastBlockHeight, content⟩
    state := genesis }

end Program

/-! ## Reading a state back -/

section ReadBack

variable {crypto : Crypto PubKey Signature Address} {wire : Wire PubKey Signature Address}
  {valSet : ValidatorSet PubKey Address} {s : State PubKey Address}

theorem totalVotingPower_written : (written valSet).totalVotingPower = valSet.totalVotingPower := by
  rw [ValidatorSet.totalVotingPower_eq, ValidatorSet.totalVotingPower_eq]
  rfl

open VerifyCommit in
theorem tallyPrecommits_written {chainID : String} {blockID : BlockID} {height round : ℤ}
    {precommits : List (Option (Vote Signature Address))} {index : ℕ} {tallied : ℤ} :
    tallyPrecommits crypto wire (written valSet) chainID blockID height round index precommits
        tallied =
      tallyPrecommits crypto wire valSet chainID blockID height round index precommits tallied := by
  induction precommits generalizing index tallied with
  | nil => rfl
  | cons precommit precommits ih =>
    cases precommit with
    | none => exact ih
    | some vote =>
      unfold tallyPrecommits
      simp only [ih]
      rfl

open VerifyCommit in
theorem verifyCommit_written {chainID : String} {blockID : BlockID} {height : ℤ}
    {commit : Option (Commit Signature Address)} :
    verifyCommit crypto wire (written valSet) chainID blockID height commit =
      verifyCommit crypto wire valSet chainID blockID height commit := by
  unfold verifyCommit twoThirds
  simp only [totalVotingPower_written, tallyPrecommits_written]
  rfl

variable [LinearOrder Address]

theorem verifyAllEvidence_congr {db db' : StateDB PubKey Address}
    (hdb : db.validatorsInfo = db'.validatorsInfo)
    {entries : List (Option (DuplicateVoteEvidence PubKey Signature Address))} :
    verifyAllEvidence crypto wire db (writtenState s) entries =
      verifyAllEvidence crypto wire db' s entries := by
  induction entries with
  | nil => rfl
  | cons entry entries ih =>
    unfold verifyAllEvidence verifyEvidence loadValidators
    rw [ih, hdb]
    rfl

theorem validateBlock_written {db db' : StateDB PubKey Address}
    (hdb : db.validatorsInfo = db'.validatorsInfo) {block : Block PubKey Signature Address} :
    validateBlock crypto wire db (writtenState s) block =
      validateBlock crypto wire db' s block := by
  unfold validateBlock validateCommit
  simp only [verifyAllEvidence_congr hdb]
  simp only [writtenState, verifyCommit_written]
  rfl

theorem incrementAccum_written {Error : Type} :
    ((written valSet).incrementAccum 1 : Fallible Error _) = valSet.incrementAccum 1 := by
  have hsame : (incrementedAccums (written valSet).totalVotingPower 1 (written valSet).validators
      (written valSet).proposer : Fallible Error _) =
      incrementedAccums valSet.totalVotingPower 1 valSet.validators valSet.proposer := by
    rw [totalVotingPower_written]
    rfl
  unfold ValidatorSet.incrementAccum
  split
  next stop hleft =>
    rw [hsame] at hleft
    split
    next other hright =>
      rw [hleft] at hright
      cases hright
      rfl
    next hright =>
      rw [hleft] at hright
      cases hright
  next validators proposer hleft =>
    rw [hsame] at hleft
    split
    next hright =>
      rw [hleft] at hright
      cases hright
    next found chosen hright =>
      rw [hleft] at hright
      cases hright
      simp only [totalVotingPower_written]

theorem updateValidators_written {updates : List Validators.TxBased.Validator}
    (hupdates : updates ≠ []) :
    (written valSet).updateValidators crypto updates = valSet.updateValidators crypto updates := by
  cases updates with
  | nil => exact absurd rfl hupdates
  | cons update rest =>
    unfold ValidatorSet.updateValidators ValidatorSet.changeInVotingPowerMoreOrEqualToOneThird
    simp only [totalVotingPower_written, List.foldlM_cons]
    rfl

theorem nextValidators_written {header : Header} {responses : ABCIResponses} :
    nextValidators crypto (writtenState s) header responses =
      nextValidators crypto s header responses := by
  unfold nextValidators ValidatorSet.updateState ValidatorSet.changed
  by_cases hempty : responses.validatorUpdates = []
  · rw [hempty]
    show (do
      let nextValSet ← ((written s.validators).incrementAccum 1).mapError _
      return (nextValSet, s.lastHeightValidatorsChanged)) = _
    rw [incrementAccum_written]
    rfl
  · have hne := mt List.isEmpty_iff.mp hempty
    simp only [if_neg hne, writtenState, updateValidators_written hempty]

/-- The next state only differs in the cache of the last validators. -/
theorem nextState_written {block : Applied} :
    nextState crypto wire (writtenState s) block =
      (nextState crypto wire s block).map fun next ↦
        { next with lastValidators := written next.lastValidators } := by
  have hparams : nextParams (writtenState s) block.header block.responses =
      nextParams s block.header block.responses := rfl
  unfold nextState updateState
  rw [nextValidators_written, hparams]
  cases nextValidators crypto s block.header block.responses with
  | error stop => rfl
  | ok pair =>
    cases nextParams s block.header block.responses with
    | error stop => rfl
    | ok params => rfl

theorem applyBlock_eq_ok_iff {db after : StateDB PubKey Address} {blockID : BlockID}
    {block : Block PubKey Signature Address} {responses : ABCIResponses} {appHash : Bytes}
    {next : State PubKey Address} :
    applyBlock crypto wire db s blockID block responses appHash = .ok (after, next) ↔
      validateBlock crypto wire db s block = .ok () ∧
        nextState crypto wire s ⟨blockID, block.header, responses, appHash⟩ = .ok next ∧
        after = saveState (saveABCIResponses db block.header.height responses) next := by
  unfold applyBlock
  simp only [Results.bind_eq_ok_iff, Results.mapError_eq_ok_iff]
  constructor
  · intro ⟨_, hvalid, found, hnext, hreturn⟩
    cases hreturn
    exact ⟨hvalid, hnext, rfl⟩
  · intro ⟨hvalid, hnext, hafter⟩
    exact ⟨(), hvalid, next, hnext, by rw [hafter]; rfl⟩

/-- What `ApplyBlock` saves is the same for a state that has been read back. -/
theorem applyBlock_written {db db' after : StateDB PubKey Address} {blockID : BlockID}
    {block : Block PubKey Signature Address} {responses : ABCIResponses} {appHash : Bytes}
    {next : State PubKey Address} (hinfo : db'.validatorsInfo = db.validatorsInfo)
    (hsaved : saveABCIResponses db' block.header.height responses =
      saveABCIResponses db block.header.height responses)
    (happly : applyBlock crypto wire db s blockID block responses appHash = .ok (after, next)) :
    applyBlock crypto wire db' (writtenState s) blockID block responses appHash =
      .ok (after, { next with lastValidators := written next.lastValidators }) := by
  rw [applyBlock_eq_ok_iff] at happly ⊢
  obtain ⟨hvalid, hnext, hafter⟩ := happly
  refine ⟨?_, ?_, ?_⟩
  · rw [validateBlock_written hinfo, hvalid]
  · rw [nextState_written, hnext]
    rfl
  · rw [hafter, hsaved]
    rfl

end ReadBack

/-! ## Running nodes -/

section Run

variable [LinearOrder Address] {crypto : Crypto PubKey Signature Address}
  {wire : Wire PubKey Signature Address} {app : Application PubKey Signature Address Content}
  {node after : Node PubKey Signature Address Content}
  {block : Block PubKey Signature Address} {seenCommit : Commit Signature Address}

/-- What the steps of `processBlock` leave behind. -/
structure Processed (crypto : Crypto PubKey Signature Address)
    (wire : Wire PubKey Signature Address) (app : Application PubKey Signature Address Content)
    (node : Node PubKey Signature Address Content) (block : Block PubKey Signature Address)
    (seenCommit : Commit Signature Address) (after : Node PubKey Signature Address Content)
    (parts : PartSet) (hashed : Header) (hash : Bytes) : Prop where
  cut : (block.makePartSet wire node.state.consensusParams.blockPartSizeBytes :
    Fallible (NodeError Signature Address) PartSet) = .ok parts
  contiguous : block.header.height = node.store.height + 1
  stored : after.store = withBlock node.store block hashed hash parts seenCommit
  committed : after.app = app.commit node.app block
  applied : applyBlock crypto wire node.db node.state ⟨hash, parts.header⟩ block
    (app.exec node.app.content block) (app.hash (app.next node.app.content block)) =
      .ok (after.db, after.state)

theorem processed_of_processBlock
    (hprocess : processBlock crypto wire app node (block, seenCommit) = .ok after) :
    ∃ parts hashed hash,
      Processed crypto wire app node block seenCommit after parts hashed hash := by
  unfold processBlock at hprocess
  simp only [Results.bind_eq_ok_iff] at hprocess
  obtain ⟨parts, hparts, ⟨_, hash⟩, hhash, store, hstore, ⟨db, state⟩, happly, hreturn⟩ := hprocess
  cases hreturn
  obtain ⟨hheight, hashed, found, hfound, hstored⟩ := withBlock_of_saveBlock hstore
  rw [hhash] at hfound
  cases hfound
  exact ⟨parts, _, hash, hparts, hheight, hstored, rfl, happly⟩

/-- The heights and the records of a node between two blocks of a chain that starts at the given
height. -/
structure Recorded (start : ℤ) (node : Node PubKey Signature Address Content) : Prop where
  start_le : start ≤ node.state.lastBlockHeight
  storeHeight : node.store.height = node.state.lastBlockHeight
  appHeight : node.app.height = node.state.lastBlockHeight
  descriptor : node.store.db.descriptor = some node.store.height
  above : ∀ height, node.store.height < height → node.store.db.blockMeta height = none
  saved : node.db.state = some (writtenState node.state)

/-- What holds of a node between two blocks. -/
structure Settled (app : Application PubKey Signature Address Content) (start : ℤ)
    (node : Node PubKey Signature Address Content) : Prop extends Recorded start node where
  appHash : app.hash node.app.content = node.state.appHash
  validators : node.state.validators.validators ≠ []
  lastValidators : node.state.lastValidators.size = 0 ↔ node.state.lastBlockHeight = start

variable {parts : PartSet} {hashed : Header} {hash : Bytes} {start : ℤ}

theorem Processed.follows
    (hprocessed : Processed crypto wire app node block seenCommit after parts hashed hash) :
    Follows wire node.state ⟨⟨hash, parts.header⟩, block.header, app.exec node.app.content block,
      app.hash (app.next node.app.content block)⟩ after.state :=
  follows_of_nextState (applyBlock_eq_ok_iff.mp hprocessed.applied).2.1

theorem Processed.storeHeight
    (hprocessed : Processed crypto wire app node block seenCommit after parts hashed hash) :
    after.store.height = block.header.height := by
  rw [hprocessed.stored]
  rfl

theorem Recorded.height_of_processed (hrecorded : Recorded start node)
    (hprocessed : Processed crypto wire app node block seenCommit after parts hashed hash) :
    after.state.lastBlockHeight = node.state.lastBlockHeight + 1 := by
  rw [hprocessed.follows.lastBlockHeight, hprocessed.contiguous, hrecorded.storeHeight]

theorem Recorded.step (hrecorded : Recorded start node)
    (hprocessed : Processed crypto wire app node block seenCommit after parts hashed hash) :
    Recorded start after := by
  have hheight := hrecorded.height_of_processed hprocessed
  have hlow := hrecorded.start_le
  refine {
    start_le := by omega
    storeHeight := by rw [hprocessed.storeHeight, hprocessed.follows.lastBlockHeight]
    appHeight := by rw [hprocessed.committed, hheight, ← hrecorded.appHeight]; rfl
    descriptor := by rw [hprocessed.storeHeight, hprocessed.stored]; rfl
    above := fun height habove ↦ ?_
    saved := by rw [(applyBlock_eq_ok_iff.mp hprocessed.applied).2.2]; rfl }
  have hbefore := hrecorded.above height
  rw [hprocessed.storeHeight, hprocessed.contiguous] at habove
  rw [hprocessed.stored]
  unfold withBlock
  dsimp only
  rw [Function.update_of_ne (by rw [hprocessed.contiguous]; omega)]
  exact hbefore (by omega)

theorem validators_of_nextState {s next : State PubKey Address} {applied : Applied}
    (hnext : nextState crypto wire s applied = .ok next) : next.validators.validators ≠ [] := by
  unfold nextState updateState nextValidators ValidatorSet.updateState at hnext
  simp only [Results.bind_eq_ok_iff, Results.mapError_eq_ok_iff] at hnext
  obtain ⟨_, ⟨_, ⟨nextValSet, ⟨changed, _, hincremented⟩, hpair⟩, _, _, hreturn⟩, hsaved⟩ := hnext
  cases hpair
  cases hreturn
  cases hsaved
  exact ValidatorSet.nonempty_of_incrementAccum hincremented

theorem Settled.step (hsettled : Settled app start node)
    (hprocessed : Processed crypto wire app node block seenCommit after parts hashed hash) :
    Settled app start after := by
  have hfollows := hprocessed.follows
  have hheight := hsettled.height_of_processed hprocessed
  have hlow := hsettled.start_le
  refine {
    toRecorded := hsettled.toRecorded.step hprocessed
    appHash := ?_
    validators := validators_of_nextState (applyBlock_eq_ok_iff.mp hprocessed.applied).2.1
    lastValidators := ?_ }
  · rw [hprocessed.committed, hfollows.appHash]
    rfl
  · rw [hfollows.lastValidators, hheight]
    have hsize : node.state.validators.size ≠ 0 :=
      fun hzero ↦ hsettled.validators (List.length_eq_zero_iff.mp hzero)
    exact ⟨fun hzero ↦ absurd hzero hsize, fun hstart ↦ by omega⟩

variable {inputs rest : List (Block PubKey Signature Address × Commit Signature Address)}
  {input : Block PubKey Signature Address × Commit Signature Address}

theorem processBlocks_append
    {before : List (Block PubKey Signature Address × Commit Signature Address)} :
    processBlocks crypto wire app node (before ++ rest) = (do
      let middle ← processBlocks crypto wire app node before
      processBlocks crypto wire app middle rest) :=
  List.foldlM_append

theorem processBlocks_concat
    (hrun : processBlocks crypto wire app node (inputs ++ [input]) = .ok after) :
    ∃ middle, processBlocks crypto wire app node inputs = .ok middle ∧
      processBlock crypto wire app middle input = .ok after := by
  rw [processBlocks_append, Results.bind_eq_ok_iff] at hrun
  obtain ⟨middle, hmiddle, hlast⟩ := hrun
  refine ⟨middle, hmiddle, ?_⟩
  unfold processBlocks at hlast
  rw [List.foldlM_cons, Results.bind_eq_ok_iff] at hlast
  obtain ⟨next, hnext, hreturn⟩ := hlast
  cases hreturn
  exact hnext

theorem exists_of_processBlocks_cons
    (hrun : processBlocks crypto wire app node (input :: inputs) = .ok after) :
    ∃ next parts hashed hash,
      Processed crypto wire app node input.1 input.2 next parts hashed hash ∧
      processBlocks crypto wire app next inputs = .ok after := by
  unfold processBlocks at hrun
  rw [List.foldlM_cons, Results.bind_eq_ok_iff] at hrun
  obtain ⟨next, hnext, hrest⟩ := hrun
  obtain ⟨parts, hashed, hash, hprocessed⟩ := processed_of_processBlock hnext
  exact ⟨next, parts, hashed, hash, hprocessed, hrest⟩

/-- A property of nodes that every block keeps holds after a run. -/
theorem processBlocks_induct {motive : Node PubKey Signature Address Content → Prop}
    (hrun : processBlocks crypto wire app node inputs = .ok after) (hfirst : motive node)
    (hstep : ∀ {node block seenCommit after parts hashed hash},
      Processed crypto wire app node block seenCommit after parts hashed hash → motive node →
        motive after) : motive after := by
  induction inputs generalizing node with
  | nil =>
    cases hrun
    exact hfirst
  | cons input inputs ih =>
    obtain ⟨next, parts, hashed, hash, hprocessed, hrest⟩ := exists_of_processBlocks_cons hrun
    exact ih hrest (hstep hprocessed hfirst)

theorem Recorded.run (hrecorded : Recorded start node)
    (hrun : processBlocks crypto wire app node inputs = .ok after) : Recorded start after :=
  processBlocks_induct hrun hrecorded fun hprocessed hbefore ↦ hbefore.step hprocessed

theorem Settled.run (hsettled : Settled app start node)
    (hrun : processBlocks crypto wire app node inputs = .ok after) : Settled app start after :=
  processBlocks_induct hrun hsettled fun hprocessed hbefore ↦ hbefore.step hprocessed

theorem Recorded.height_of_run (hrecorded : Recorded start node)
    (hrun : processBlocks crypto wire app node inputs = .ok after) :
    after.state.lastBlockHeight = node.state.lastBlockHeight + inputs.length := by
  induction inputs generalizing node with
  | nil =>
    cases hrun
    simp
  | cons input inputs ih =>
    obtain ⟨next, parts, hashed, hash, hprocessed, hrest⟩ := exists_of_processBlocks_cons hrun
    rw [ih (hrecorded.step hprocessed) hrest, hrecorded.height_of_processed hprocessed,
      List.length_cons]
    omega

theorem loadBlock_of_run {E : Type}
    (hrun : processBlocks crypto wire app node inputs = .ok after) {height : ℤ}
    (hheight : height ≤ node.store.height) :
    (loadBlock wire after.store height : Fallible E _) =
      loadBlock wire node.store height := by
  refine (processBlocks_induct (motive := fun found ↦ node.store.height ≤ found.store.height ∧
    (loadBlock wire found.store height : Fallible E _) =
      loadBlock wire node.store height) hrun ⟨le_rfl, rfl⟩ ?_).2
  intro found block seenCommit next parts hashed hash hprocessed hbefore
  have hcontiguous := hprocessed.contiguous
  refine ⟨by rw [hprocessed.storeHeight]; omega, ?_⟩
  rw [hprocessed.stored, loadBlock_withBlock_of_ne (by omega), hbefore.2]

theorem stored_of_run {E : Type} {found : Node PubKey Signature Address Content}
    (hrecorded : Recorded start found)
    (hread : wire.readBlock (wire.blockBytes input.1) = some input.1)
    (hrun : processBlocks crypto wire app found (input :: rest) = .ok node) :
    (loadBlock wire node.store (found.state.lastBlockHeight + 1) : Fallible E _) =
        .ok (some input.1) ∧
      validateBlock crypto wire found.db found.state input.1 = .ok () := by
  obtain ⟨next, parts, hashed, hash, hprocessed, hrest⟩ := exists_of_processBlocks_cons hrun
  have hheight : found.state.lastBlockHeight + 1 = input.1.header.height := by
    rw [hprocessed.contiguous, hrecorded.storeHeight]
  refine ⟨?_, (applyBlock_eq_ok_iff.mp hprocessed.applied).1⟩
  rw [loadBlock_of_run hrest (by rw [hprocessed.storeHeight]; omega), hheight, hprocessed.stored]
  exact loadBlock_withBlock hprocessed.cut hread

omit [LinearOrder Address] in
theorem recorded_genesisNode {genesis : State PubKey Address} {content : Content} :
    Recorded genesis.lastBlockHeight (genesisNode genesis content :
      Node PubKey Signature Address Content) where
  start_le := le_rfl
  storeHeight := rfl
  appHeight := rfl
  descriptor := rfl
  above _ _ := rfl
  saved := rfl

theorem settled_genesisNode {genDoc : GenesisDoc PubKey} {now : ℤ} {genesis : State PubKey Address}
    {content : Content} (hgenesis : makeGenesisState crypto now genDoc = .ok genesis)
    (happ : app.hash content = genDoc.appHash) :
    Settled app genDoc.blockStartNum (genesisNode genesis content :
      Node PubKey Signature Address Content) := by
  have hmade := isGenesis_of_makeGenesisState hgenesis
  refine {
    toRecorded := hmade.lastBlockHeight ▸ recorded_genesisNode
    appHash := by rw [genesisNode, happ, hmade.appHash]
    validators := ?_
    lastValidators := ?_ }
  · unfold makeGenesisState at hgenesis
    simp only [Results.bind_eq_ok_iff] at hgenesis
    obtain ⟨_, _, _, _, valSet, hvalSet, _, _, hreturn⟩ := hgenesis
    cases hreturn
    exact ValidatorSet.nonempty_of_incrementAccum hvalSet
  · have hlast : (genesisNode genesis content : Node PubKey Signature Address
        Content).state.lastValidators.size = 0 := by
      rw [genesisNode, hmade.lastValidators]
      rfl
    exact ⟨fun _ ↦ hmade.lastBlockHeight, fun _ ↦ hlast⟩

end Run

/-! ## A sample chain -/

/-- An application that counts blocks. Its answer to a block is given by the count. -/
def countingApp (answer : ℕ → ABCIResponses) : Application UInt8 UInt8 ℕ ℕ where
  initChain content _ := content
  exec content _ := answer content
  next content _ := content + 1
  hash content := [UInt8.ofNat content]

/-- Answers without updates. -/
def noUpdates : ABCIResponses := ⟨[], [], none⟩

/-- The application that never answers with an update. -/
def quietApp : Application UInt8 UInt8 ℕ ℕ :=
  countingApp fun _ ↦ noUpdates

/-- The header of an empty block on the state of `sampleGenesis`. -/
def sampleHeader (height : ℤ) (appHash lastResultsHash : Bytes) (lastBlockID : BlockID)
    (lastCommitHash : Bytes) (coinbase : String) : Header where
  chainID := "chain"
  height := height
  time := 200 + height
  numTxs := 0
  lastBlockID := lastBlockID
  totalTxs := 0
  lastCommitHash := some lastCommitHash
  dataHash := some [2]
  validatorsHash := [5, 1, 10]
  consensusHash := defaultConsensusParams.hash sampleWire
  appHash := appHash
  lastResultsHash := lastResultsHash
  evidenceHash := some [3]
  coinbase := coinbase

/-- The first block after a height. -/
def firstBlock (start : ℤ) : Block UInt8 UInt8 ℕ where
  header := sampleHeader (start + 1) [0] [] .zero [1] "first"
  data := some []
  evidence := []
  lastCommit := some ⟨.zero, [], start⟩

/-- The identity of the block of a height. -/
def sampleBlockID (height : ℤ) : BlockID :=
  ⟨[4, sampleByte height, sampleByte (200 + height)],
    ⟨1, [8, sampleByte height, sampleByte (200 + height)]⟩⟩

/-- A commit by the only validator. -/
def sampleCommit (height : ℤ) : Commit UInt8 ℕ :=
  ⟨sampleBlockID height, [some ⟨1, 0, height, 0, 0, voteTypePrecommit, sampleBlockID height, 1⟩], 0⟩

/-- The second block of a chain from height 0. -/
def secondBlock (coinbase : String) : Block UInt8 UInt8 ℕ where
  header := sampleHeader 2 [1] [7] (sampleBlockID 1) [1, 1] coinbase
  data := some []
  evidence := []
  lastCommit := some (sampleCommit 1)

/-- Encodings that read these blocks back. -/
def chainWire (blocks : List (Block UInt8 UInt8 ℕ)) : Wire UInt8 UInt8 ℕ :=
  { sampleWire with
    readBlock := fun bytes ↦ blocks.find? fun block ↦ sampleWire.blockBytes block = bytes }

/-- Encodings that read the two sample blocks back. -/
def twoBlockWire : Wire UInt8 UInt8 ℕ :=
  chainWire [firstBlock 0, secondBlock "second"]

end LkChain.Tendermint.Execution
